import EmeraldExchange.Lib.Runs
import EmeraldExchange.MediaCore.ScanSteps

/-!
# Scan after scan

The disk changes, and a library is scanned again and again. A run is made of starts of scans, of
visits of the files that a scan has walked, one after the other in any order, and of the
reconciliation at the end; a visit after which the scan breaks off ends it. A scan is a run of this
kind (`runs_of_scanOnce`), so what holds of all states of all runs holds
after any scans, and while one is running.

What the reconciliation does is made of three writes: a file is deleted with the titles it backs,
the shows without episodes are swept, and the progress of viewers whose title is gone is dropped.
-/

namespace EmeraldExchange.MediaCore

open Program

/-! ### Runs -/

/-- A scan that is running: the files that are left to visit, and how many statements there were. -/
structure Running where
  moment : Moment
  left : List WalkedFile
  statements : ℕ := 0

/-- **The tables, and the scan that is running**, if one is. -/
structure Scans where
  db : MediaDb := {}
  scan : Option Running := none

inductive ScanAction
  | start (moment : Moment) (walk : List WalkedFile)
  | visit
  | reconcile

/-- What a part of a scan leaves: a part that fails ends the scan. -/
def Scans.after (m : Moment) (left : List WalkedFile) : Option Unit × Scanning → Scans
  | (some (), t) => ⟨t.db, some ⟨m, left, t.statements⟩⟩
  | (none, t) => ⟨t.db, none⟩

/-- **A step**: one scan is running at a time, and it goes through what it has walked in some
order. -/
def step (lib : Library) (s : Scans) : ScanAction → Option Scans
  | .start m walk =>
    if s.scan.isNone ∧ walk.Perm (walkRoots ⟨lib, m⟩) then some ⟨s.db, some ⟨m, walk, 0⟩⟩ else none
  | .visit =>
    match s.scan with
    | some ⟨m, w :: left, n⟩ => some (.after m left (scanFile ⟨lib, m⟩ w ⟨s.db, n⟩))
    | _ => none
  | .reconcile =>
    match s.scan with
    | some ⟨m, [], n⟩ => some ⟨(reconcile ⟨lib, m⟩ ⟨s.db, n⟩).2.db, none⟩
    | _ => none

variable {lib : Library} {m : Moment} {s t : Scans}

theorem step_start_of {walk : List WalkedFile} (hnone : s.scan = none)
    (hperm : walk.Perm (walkRoots ⟨lib, m⟩)) :
    step lib s (.start m walk) = some ⟨s.db, some ⟨m, walk, 0⟩⟩ :=
  if_pos ⟨Option.isNone_iff_eq_none.mpr hnone, hperm⟩

theorem step_start {walk : List WalkedFile} (h : step lib s (.start m walk) = some t) :
    s.scan = none ∧ walk.Perm (walkRoots ⟨lib, m⟩) ∧ t = ⟨s.db, some ⟨m, walk, 0⟩⟩ := by
  obtain ⟨⟨hnone, hperm⟩, h⟩ := Option.ite_none_right_eq_some.mp h
  exact ⟨Option.isNone_iff_eq_none.mp hnone, hperm, (Option.some.inj h).symm⟩

theorem step_visit (h : step lib s .visit = some t) :
    ∃ m w left n, s.scan = some ⟨m, w :: left, n⟩ ∧
      t = .after m left (scanFile ⟨lib, m⟩ w ⟨s.db, n⟩) := by
  rcases hscan : s.scan with _ | ⟨m, _ | ⟨w, left⟩, n⟩
  · rw [step, hscan] at h
    cases h
  · rw [step, hscan] at h
    cases h
  · rw [step, hscan] at h
    exact ⟨m, w, left, n, rfl, (Option.some.inj h).symm⟩

theorem step_reconcile (h : step lib s .reconcile = some t) :
    ∃ m n, s.scan = some ⟨m, [], n⟩ ∧ t = ⟨(reconcile ⟨lib, m⟩ ⟨s.db, n⟩).2.db, none⟩ := by
  rcases hscan : s.scan with _ | ⟨m, _ | ⟨w, left⟩, n⟩
  · rw [step, hscan] at h
    cases h
  · rw [step, hscan] at h
    exact ⟨m, n, rfl, (Option.some.inj h).symm⟩
  · rw [step, hscan] at h
    cases h

/-! ### A scan is a run -/

theorem runs_of_scanFiles : ∀ (walk : List WalkedFile) (db : MediaDb) (n : ℕ),
    Runs (step lib) anyStep ⟨db, some ⟨m, walk, n⟩⟩
      ⟨((do scanFiles ⟨lib, m⟩ walk; reconcile ⟨lib, m⟩ : Scan Unit) ⟨db, n⟩).2.db, none⟩
  | [], db, n => .single ⟨.reconcile, trivial, rfl⟩
  | w :: walk, db, n => by
    have hvisit : StepVia (step lib) anyStep ⟨db, some ⟨m, w :: walk, n⟩⟩
        (.after m walk (scanFile ⟨lib, m⟩ w ⟨db, n⟩)) := ⟨.visit, trivial, rfl⟩
    have hscan : (do scanFiles ⟨lib, m⟩ (w :: walk); reconcile ⟨lib, m⟩ : Scan Unit) ⟨db, n⟩ =
        match scanFile ⟨lib, m⟩ w ⟨db, n⟩ with
        | (some (), t) =>
          (do scanFiles ⟨lib, m⟩ walk; reconcile ⟨lib, m⟩ : Scan Unit) t
        | (none, t) => (none, t) := by
      show Program.bind (Program.bind (scanFile ⟨lib, m⟩ w) _) _ _ = _
      rw [Program.bind, Program.bind]
      rcases scanFile ⟨lib, m⟩ w ⟨db, n⟩ with ⟨_ | ⟨⟩, t⟩
      · rfl
      · rfl
    rw [hscan]
    rcases hw : scanFile ⟨lib, m⟩ w ⟨db, n⟩ with ⟨_ | ⟨⟩, t⟩
    · rw [hw] at hvisit
      exact .single hvisit
    · rw [hw] at hvisit
      exact (Relation.ReflTransGen.single hvisit).trans (runs_of_scanFiles walk t.db t.statements)

/-- **A scan is a run.** -/
theorem runs_of_scanOnce {walk : List WalkedFile} (hwalk : walk.Perm (walkRoots ⟨lib, m⟩))
    (db : MediaDb) :
    Runs (step lib) anyStep ⟨db, none⟩ ⟨(scanOnce ⟨lib, m⟩ walk ⟨db, 0⟩).2.db, none⟩ := by
  have hstart : StepVia (step lib) anyStep ⟨db, none⟩ ⟨db, some ⟨m, walk, 0⟩⟩ :=
    ⟨.start m walk, trivial, step_start_of rfl hwalk⟩
  exact (Relation.ReflTransGen.single hstart).trans (runs_of_scanFiles walk db 0)

/-! ### The reconciliation -/

section reconcile

variable {env : ScanEnv} {P : MediaDb → Prop} {db : MediaDb}

def MediaDb.sweepShows (db : MediaDb) : MediaDb :=
  { db with shows := db.shows.remove fun x => !db.episodes.rows.any fun e => e.2.showId = x.1 }

/-- **What the writes of a reconciliation preserve is preserved by it.** -/
theorem ends_reconcile
    (hdelete : ∀ {db' id}, id ∈ missingFiles env db.files.rows → P db' → P (db'.deleteFile id))
    (hsweep : ∀ {db}, P db → P db.sweepShows)
    (hwatch : ∀ {db : MediaDb} {watch}, P db → P { db with watch := watch }) (h : P db) :
    Ends (reconcile env) (fun _ => P) P db := by
  have hfiles : ∀ ids {db'}, ids ⊆ missingFiles env db.files.rows → P db' →
      Ends (deleteFiles env ids) (fun _ => P) P db' := by
    intro ids
    induction ids with
    | nil => exact fun _ h => ends_pure h
    | cons id ids ih =>
      intro db' hids h
      obtain ⟨hid, hids⟩ := List.cons_subset.mp hids
      refine ends_bind (ends_statement (fun removed db' hdb' => ?_) fun _ => h)
      obtain ⟨-, rfl⟩ := Prod.mk.inj (Option.some.inj hdb')
      exact ends_bind ((ih hids (hdelete hid h)).mono (fun more db' h => ends_pure h) fun _ h => h)
  have hprune : Ends (pruneMissingFiles env) (fun _ => P) P db := by
    refine ends_ite (fun _ => ends_pure h) fun _ => ?_
    refine ends_bind (ends_select ?_ fun _ => h)
    refine ends_bind ((hfiles _ (List.Subset.refl _) h).mono (fun removed db' h => ?_) fun _ h => h)
    refine ends_ite (fun _ => ?_) fun _ => ends_pure h
    refine ends_execute (fun db'' hdb'' => ?_) fun _ => h
    obtain rfl := Option.some.inj hdb''
    exact hsweep h
  refine ends_ite (fun _ => ends_pure h) fun _ => ?_
  refine ends_bind (ends_logged (hprune.mono (fun _ db' h => ?_) fun db' h => ?_))
  all_goals
    refine ends_logged (ends_execute (fun db'' hdb'' => ?_) fun _ => h)
    obtain rfl := Option.some.inj hdb''
    exact hwatch h

end reconcile

/-! ### What a prune deletes -/

section prune

variable {env : ScanEnv} {db db' : MediaDb} {ids : List ℕ} {id : ℕ}

/-- **Some of these rows are deleted, and no others**; all of them, if no statement fails. -/
def Pruned (env : ScanEnv) (ids : List ℕ) (db db' : MediaDb) : Prop :=
  (∀ x ∈ db.files, x.1 ∉ ids → x ∈ db'.files) ∧ (∀ x ∈ db'.files, x ∈ db.files) ∧
    (env.Faulty ∨ ∀ x ∈ db'.files, x.1 ∉ ids)

theorem pruned_nil : Pruned env [] db db :=
  ⟨fun _ hx _ => hx, fun _ hx => hx, .inr fun _ _ => List.not_mem_nil⟩

theorem pruned_of_faulty (h : env.Faulty) : Pruned env ids db db :=
  ⟨fun _ hx _ => hx, fun _ hx => hx, .inl h⟩

theorem Pruned.cons {db₁ : MediaDb} (hdb₁ : db₁ = db.deleteFile id) (h : Pruned env ids db₁ db') :
    Pruned env (id :: ids) db db' := by
  subst hdb₁
  have hmem {x : ℕ × MediaFile} : x ∈ (db.deleteFile id).files ↔ x ∈ db.files ∧ x.1 ≠ id := by
    rw [MediaDb.deleteFile, AutoTable.mem_remove, decide_eq_false_iff_not]
  refine ⟨fun x hx hne => ?_, fun x hx => (hmem.mp (h.2.1 x hx)).1,
    h.2.2.imp_right fun h' x hx => ?_⟩
  · rw [List.mem_cons, not_or] at hne
    exact h.1 x (hmem.mpr ⟨hx, hne.1⟩) hne.2
  · rw [List.mem_cons, not_or]
    exact ⟨(hmem.mp (h.2.1 x hx)).2, h' x hx⟩

theorem ends_deleteFiles : ∀ (ids : List ℕ) (db : MediaDb),
    Ends (deleteFiles env ids) (fun _ => Pruned env ids db) (Pruned env ids db) db
  | [], db => ends_pure pruned_nil
  | id :: ids, db => by
    refine ends_bind (ends_statement (fun removed db₁ hdb₁ => ?_) fun h => ?_)
    · obtain ⟨_, hdb₁⟩ := Prod.mk.inj (Option.some.inj hdb₁)
      refine ends_bind ((ends_deleteFiles ids db₁).mono (fun more db' h => ?_) fun db' h => ?_)
      · exact ends_pure (h.cons hdb₁.symm)
      · exact h.cons hdb₁.symm
    · exact pruned_of_faulty (h.resolve_right (by rintro ⟨⟩))

/-- **`prune_missing_files`** -/
theorem ends_pruneMissingFiles : Ends (pruneMissingFiles env)
    (fun _ => Pruned env (missingFiles env db.files.rows) db)
    (Pruned env (missingFiles env db.files.rows) db) db := by
  refine ends_ite (fun hnil => ends_pure ?_) fun _ => ?_
  · have hids : missingFiles env db.files.rows = [] := by
      rw [missingFiles, hnil]
      simp
    rw [hids]
    exact pruned_nil
  · refine ends_bind (ends_select ?_ pruned_of_faulty)
    refine ends_bind ((ends_deleteFiles _ db).mono (fun removed db' h => ?_) fun _ h => h)
    refine ends_ite (fun _ => ?_) fun _ => ends_pure h
    refine ends_execute (fun db'' hdb'' => ?_) fun _ => h
    obtain rfl := Option.some.inj hdb''
    exact h

/-- **What follows the walk of `scan_once`** -/
theorem ends_reconcile_pruned : Ends (reconcile env)
    (fun _ => Pruned env (missingFiles env db.files.rows) db)
    (Pruned env (missingFiles env db.files.rows) db) db := by
  refine ends_ite (fun hnil => ends_pure ?_) fun _ => ?_
  · have hids : missingFiles env db.files.rows = [] := by
      rw [missingFiles, prunableRoots, hnil]
      simp
    rw [hids]
    exact pruned_nil
  · refine ends_bind (ends_logged (ends_pruneMissingFiles.mono (fun _ db' h => ?_) fun db' h => ?_))
    all_goals
      refine ends_logged (ends_execute (fun db'' hdb'' => ?_) fun _ => h)
      obtain rfl := Option.some.inj hdb''
      exact h

/-- The rows that `scan_once` picks. -/
theorem mem_missingFiles {x : ℕ × MediaFile} (hfile : db.HasFile x.1 x.2.path) :
    x.1 ∈ missingFiles env db.files.rows ↔ ∃ root ∈ prunableRoots env,
      root.path.isPrefixOf x.2.path = true ∧
        (inExtrasDir env x.2.path root.path = true ∨ env.onDisk x.2.path = false) := by
  obtain ⟨f, hf, hpath⟩ := hfile
  rw [missingFiles, List.mem_map]
  constructor
  · rintro ⟨y, hy, heq⟩
    obtain ⟨hy, hpick⟩ := List.mem_filter.mp hy
    obtain rfl : y = (x.1, f) := AutoTable.eq_of_fst_eq hy hf heq
    obtain ⟨root, hroot, hpick⟩ := List.any_eq_true.mp hpick
    rw [Bool.and_eq_true, Bool.or_eq_true, Bool.not_eq_true', hpath] at hpick
    exact ⟨root, hroot, hpick⟩
  · rintro ⟨root, hroot, hpick⟩
    refine ⟨(x.1, f), List.mem_filter.mpr ⟨hf, List.any_eq_true.mpr ⟨root, hroot, ?_⟩⟩, rfl⟩
    rwa [Bool.and_eq_true, Bool.or_eq_true, Bool.not_eq_true', hpath]

end prune

end EmeraldExchange.MediaCore
