import EmeraldExchange.Lib.Runs
import EmeraldExchange.Lib.Table

/-!
# Signals and outcomes

The recommender keeps what a member said of a title twice: as a signal (`user_feedback`), and as an
outcome of the recommendation that it is credited to (`rec_outcomes`), from which the nightly
optimizer learns. An event clears the signals that it contradicts and is credited to the newest
recommendation of the last ten minutes. Where there is none, the transaction ends there, before it
has cleared the outcomes that it contradicts. So an outcome may outlive its signal
(`not_coherent_late`).

The signals of a title never contradict each other, and no two of its dot outcomes stand beside each
other; an outcome has its signal as long as no event clears a signal whose outcome it leaves
(`coherent_of_runs`).

Each event is one transaction. Instants are microseconds; SQLite compares whole seconds.
-/

namespace EmeraldExchange.Recommender

inductive Kind
  | movie | tv
  deriving DecidableEq

structure Title where
  sub : String
  kind : Kind
  tmdbId : ℤ
  deriving DecidableEq

inductive Signal
  | like | dislike | reject | clicked | added | watched
  deriving DecidableEq

inductive Outcome
  | clicked | added | liked | disliked | rejected | ignored
  deriving DecidableEq

namespace Signal

/-- The signals that an event contradicts, which it clears. -/
def clears : Signal → List Signal
  | .dislike => [.like, .clicked, .added, .watched]
  | .reject => [.like, .dislike, .clicked, .added, .watched]
  | _ => [.dislike, .reject]

/-- Present tense in, past tense out; watched has none. -/
def outcome : Signal → Option Outcome
  | .like => some .liked
  | .dislike => some .disliked
  | .reject => some .rejected
  | .clicked => some .clicked
  | .added => some .added
  | .watched => none

def isDot (s : Signal) : Bool := s = .like || s = .dislike || s = .reject

def positive (s : Signal) : Bool := s = .like || s = .clicked || s = .added || s = .watched

def negative (s : Signal) : Bool := s = .dislike || s = .reject

end Signal

def dotOutcomes : List Outcome := [.liked, .disliked, .rejected]

/-! ### The tables -/

structure RecRow where
  id : ℕ
  title : Title
  ts : ℤ
  deriving DecidableEq

/-- **The tables that the events write**; `seq` is the last identifier of `rec_log`, none of which
is given out twice. -/
structure Db where
  userFeedback : Table (Title × Signal) ℤ
  recLog : List RecRow
  recOutcomes : Table (ℕ × Outcome) ℤ
  recentlyShown : Table Title ℤ
  seq : ℕ
  /-- The latest reading of the clock. -/
  clock : ℤ

def Db.empty : Db := ⟨∅, [], ∅, ∅, 0, 0⟩

/-- `datetime(ts)`, in seconds. -/
def datetime (ts : ℤ) : ℤ := ts / 1000000

def feedbackAttributionMinutes : ℤ := 10

def recentlyShownRetentionDays : ℤ := 30

/-- The later of two rows: `ORDER BY datetime(ts) DESC, id DESC`. -/
def RecRow.before (a b : RecRow) : Prop :=
  datetime a.ts < datetime b.ts ∨ (datetime a.ts = datetime b.ts ∧ a.id < b.id)

instance (a b : RecRow) : Decidable (a.before b) := inferInstanceAs (Decidable (_ ∨ _))

def newest : List RecRow → Option RecRow
  | [] => none
  | r :: rs =>
    match newest rs with
    | none => some r
    | some best => if best.before r then some r else some best

namespace Db

/-- The recommendation that an event on a title is credited to. -/
def creditedRec (db : Db) (t : Title) (sqlNow : ℤ) : Option RecRow :=
  newest (db.recLog.filter fun r =>
    r.title = t && datetime sqlNow - feedbackAttributionMinutes * 60 ≤ datetime r.ts)

/-- Whether a number is that of a recommendation of a title. -/
def isRecOf (db : Db) (t : Title) (id : ℕ) : Bool :=
  db.recLog.any fun r => r.id = id && r.title = t

def deleteSignals (db : Db) (t : Title) (signals : List Signal) : Db :=
  { db with userFeedback := db.userFeedback.retainKeys fun k => !(k.1 = t && k.2 ∈ signals) }

def deleteOutcomes (db : Db) (t : Title) (outcomes : List Outcome) : Db :=
  { db with
    recOutcomes := db.recOutcomes.retainKeys fun k => !(k.2 ∈ outcomes && db.isRecOf t k.1) }

def upsertSignal (db : Db) (t : Title) (s : Signal) (now : ℤ) : Db :=
  { db with userFeedback := db.userFeedback.insert (t, s) now }

def upsertOutcome (db : Db) (id : ℕ) (o : Outcome) (now : ℤ) : Db :=
  { db with recOutcomes := db.recOutcomes.insert (id, o) now }

/-- `UPSERT_SHOWN` -/
def upsertShown (db : Db) (t : Title) (now : ℤ) : Db :=
  { db with recentlyShown := db.recentlyShown.insert t now }

def trimRecentlyShown (db : Db) (sqlNow : ℤ) : Db :=
  { db with
    recentlyShown := db.recentlyShown.retain fun ts =>
      datetime sqlNow - recentlyShownRetentionDays * 86400 ≤ datetime ts }

/-- **Store a signal, clear the signals it contradicts, and credit a recommendation.** -/
def feedback (db : Db) (t : Title) (signal : Signal) (now sqlNow : ℤ) : Db :=
  let db := (db.deleteSignals t signal.clears).upsertSignal t signal now
  match signal.outcome with
  | none => db
  | some outcome =>
    match db.creditedRec t sqlNow with
    | none => db
    | some rec =>
      let db := if signal.isDot then db.deleteOutcomes t dotOutcomes else db
      db.upsertOutcome rec.id outcome now

/-- The signals that are cleared, with their outcomes. -/
def clearPairs : Option Signal → List (Signal × Outcome)
  | some .like => [(.like, .liked)]
  | some .dislike => [(.dislike, .disliked)]
  | some _ => [(.reject, .rejected)]
  | none => [(.like, .liked), (.dislike, .disliked), (.reject, .rejected)]

/-- **Clear one dot signal, or all three, and its outcomes.** -/
def clearFeedback (db : Db) (t : Title) (signal : Option Signal) : Db :=
  (clearPairs signal).foldl
    (fun db p => (db.deleteSignals t [p.1]).deleteOutcomes t [p.2]) db

def insertRec (db : Db) (t : Title) (now : ℤ) : Db :=
  { db with recLog := db.recLog ++ [⟨db.seq + 1, t, now⟩], seq := db.seq + 1 }

/-- **Log what was shown.** -/
def impressions (db : Db) (sub : String) (kind : Kind) (items : List ℤ) (now sqlNow : ℤ) : Db :=
  let logged := items.foldl (fun db id => db.insertRec ⟨sub, kind, id⟩ now) db
  let shown := items.foldl (fun db id => db.upsertShown ⟨sub, kind, id⟩ now) logged
  shown.trimRecentlyShown sqlNow

/-- **Drop what is past its retention and has no outcome.** -/
def sweepRetentionOnce (db : Db) (recLogRetentionDays sqlNow : ℤ) : Db :=
  let kept := db.recLog.filter fun r =>
    !(datetime r.ts < datetime sqlNow - recLogRetentionDays * 86400 &&
      !(db.recOutcomes.keys.any fun k => k.1 = r.id))
  { db with recLog := kept }.trimRecentlyShown sqlNow

end Db

inductive Event
  | feedback (t : Title) (signal : Signal)
  | clearFeedback (t : Title) (signal : Option Signal)
  | impressions (sub : String) (kind : Kind) (items : List ℤ)
  | sweep (recLogRetentionDays : ℤ)

/-- A transaction, when it read the clock and when SQLite did. -/
structure EventAt where
  now : ℤ
  sqlNow : ℤ
  event : Event

def Db.apply (db : Db) (a : EventAt) : Db :=
  match a.event with
  | .feedback t signal => db.feedback t signal a.now a.sqlNow
  | .clearFeedback t signal => db.clearFeedback t signal
  | .impressions sub kind items => db.impressions sub kind items a.now a.sqlNow
  | .sweep days => db.sweepRetentionOnce days a.sqlNow

/-- The transactions come one after the other, and the clock does not go back. -/
def step (db : Db) (a : EventAt) : Option Db :=
  if db.clock ≤ a.now ∧ a.now ≤ a.sqlNow then some { db.apply a with clock := a.sqlNow } else none

/-! ### What is to hold -/

def Db.Stored (db : Db) (t : Title) (s : Signal) : Prop := (t, s) ∈ db.userFeedback

def Db.HasOutcome (db : Db) (t : Title) (o : Outcome) : Prop :=
  ∃ r ∈ db.recLog, r.title = t ∧ (r.id, o) ∈ db.recOutcomes

instance (db : Db) (t : Title) (o : Outcome) : Decidable (db.HasOutcome t o) :=
  inferInstanceAs (Decidable (∃ r ∈ db.recLog, _))

/-- **Signals and outcomes agree.** -/
structure Coherent (db : Db) : Prop where
  unmixed : ∀ t p n, p.positive = true → n.negative = true → db.Stored t p → ¬ db.Stored t n
  single : ∀ t o o', o ∈ dotOutcomes → o' ∈ dotOutcomes → db.HasOutcome t o →
    db.HasOutcome t o' → o = o'
  backed : ∀ t s o, s.isDot = true → s.outcome = some o → db.HasOutcome t o → db.Stored t s

/-- The outcomes of the dot signals that an event clears. -/
def Signal.contradicted (s : Signal) : List Outcome :=
  (s.clears.filter isDot).filterMap outcome

/-- **An event leaves no outcome behind**: a dot that is credited clears them all; any other event
finds no outcome of a signal that it clears. -/
def SettlesAt (db : Db) (sqlNow : ℤ) : Event → Prop
  | .feedback t signal =>
    (signal.isDot = true ∧ (db.creditedRec t sqlNow).isSome = true) ∨
      ∀ o ∈ signal.contradicted, ¬ db.HasOutcome t o
  | _ => True

instance (db : Db) (sqlNow : ℤ) : ∀ e, Decidable (SettlesAt db sqlNow e)
  | .feedback _ _ => inferInstanceAs (Decidable (_ ∨ _))
  | .clearFeedback _ _ => inferInstanceAs (Decidable True)
  | .impressions _ _ _ => inferInstanceAs (Decidable True)
  | .sweep _ => inferInstanceAs (Decidable True)

def Settles (db : Db) (a : EventAt) : Prop := SettlesAt db a.sqlNow a.event

instance (db : Db) (a : EventAt) : Decidable (Settles db a) :=
  inferInstanceAs (Decidable (SettlesAt _ _ _))

/-! ### What each transaction changes -/

/-- **The identifiers of recommendations**: each has one title, and none is past the last. -/
structure Db.Numbered (db : Db) : Prop where
  unique : ∀ r ∈ db.recLog, ∀ r' ∈ db.recLog, r.id = r'.id → r.title = r'.title
  rec_le : ∀ r ∈ db.recLog, r.id ≤ db.seq
  outcome_le : ∀ k ∈ db.recOutcomes, k.1 ≤ db.seq

variable {db : Db} {t t' : Title} {s s' : Signal} {o o' : Outcome}

theorem newest_mem : ∀ {rs : List RecRow} {r : RecRow}, newest rs = some r → r ∈ rs
  | [], _, h => by cases h
  | r₀ :: rs, r, h => by
    rw [newest] at h
    split at h
    · obtain rfl := Option.some.inj h
      exact List.mem_cons_self
    · next best hbest =>
      have hmem := newest_mem hbest
      split at h
      · obtain rfl := Option.some.inj h
        exact List.mem_cons_self
      · obtain rfl := Option.some.inj h
        exact List.mem_cons_of_mem _ hmem

theorem creditedRec_mem {sqlNow : ℤ} {r : RecRow} (h : db.creditedRec t sqlNow = some r) :
    r ∈ db.recLog ∧ r.title = t := by
  obtain ⟨hmem, hp⟩ := List.mem_filter.mp (newest_mem h)
  rw [Bool.and_eq_true, decide_eq_true_eq] at hp
  exact ⟨hmem, hp.1⟩

theorem stored_deleteSignals {signals : List Signal} :
    (db.deleteSignals t signals).Stored t' s' ↔ db.Stored t' s' ∧ ¬ (t' = t ∧ s' ∈ signals) := by
  rw [Db.Stored, Db.deleteSignals, Table.mem_retainKeys]
  simp [Db.Stored, imp_iff_not_or]

theorem stored_upsertSignal (now : ℤ) :
    (db.upsertSignal t s now).Stored t' s' ↔ (t' = t ∧ s' = s) ∨ db.Stored t' s' := by
  rw [Db.Stored, Db.upsertSignal, AList.mem_insert, Prod.mk.injEq]
  rfl

theorem isRecOf_iff (hdb : db.Numbered) {r : RecRow} (hr : r ∈ db.recLog) :
    db.isRecOf t r.id = true ↔ r.title = t := by
  rw [Db.isRecOf, List.any_eq_true]
  constructor
  · rintro ⟨r', hr', hp⟩
    rw [Bool.and_eq_true, decide_eq_true_eq, decide_eq_true_eq] at hp
    exact (hdb.unique r' hr' r hr hp.1).symm.trans hp.2
  · rintro rfl
    exact ⟨r, hr, by simp⟩

theorem hasOutcome_deleteOutcomes (hdb : db.Numbered) {outcomes : List Outcome} :
    (db.deleteOutcomes t outcomes).HasOutcome t' o' ↔
      db.HasOutcome t' o' ∧ ¬ (t' = t ∧ o' ∈ outcomes) := by
  constructor
  · rintro ⟨r, hr, rfl, hmem⟩
    obtain ⟨hmem, hkeep⟩ := Table.mem_retainKeys.mp hmem
    refine ⟨⟨r, hr, rfl, hmem⟩, ?_⟩
    rintro ⟨ht, ho⟩
    simp [ho, (isRecOf_iff hdb hr).mpr ht] at hkeep
  · rintro ⟨⟨r, hr, rfl, hmem⟩, hnot⟩
    refine ⟨r, hr, rfl, Table.mem_retainKeys.mpr ⟨hmem, ?_⟩⟩
    rcases h : db.isRecOf t r.id with _ | _
    · simp
    · have ho : o' ∉ outcomes := fun ho => hnot ⟨(isRecOf_iff hdb hr).mp h, ho⟩
      simp [ho]

theorem hasOutcome_upsertOutcome (hdb : db.Numbered) {r : RecRow} (hr : r ∈ db.recLog)
    {now : ℤ} : (db.upsertOutcome r.id o now).HasOutcome t' o' ↔
      (t' = r.title ∧ o' = o) ∨ db.HasOutcome t' o' := by
  constructor
  · rintro ⟨r', hr', rfl, hmem⟩
    rcases (AList.mem_insert _).mp hmem with heq | hmem
    · obtain ⟨hid, rfl⟩ := Prod.mk.inj heq
      exact Or.inl ⟨hdb.unique r' hr' r hr hid, rfl⟩
    · exact Or.inr ⟨r', hr', rfl, hmem⟩
  · rintro (⟨rfl, rfl⟩ | ⟨r', hr', rfl, hmem⟩)
    · exact ⟨r, hr, rfl, (AList.mem_insert _).mpr (Or.inl rfl)⟩
    · exact ⟨r', hr', rfl, (AList.mem_insert _).mpr (Or.inr hmem)⟩

/-! An event. -/

theorem stored_feedback {now sqlNow : ℤ} :
    (db.feedback t s now sqlNow).Stored t' s' ↔
      (t' = t ∧ s' = s) ∨ (db.Stored t' s' ∧ ¬ (t' = t ∧ s' ∈ s.clears)) := by
  have htable : (db.feedback t s now sqlNow).userFeedback =
      ((db.deleteSignals t s.clears).upsertSignal t s now).userFeedback := by
    simp only [Db.feedback]
    split
    · rfl
    · split
      · rfl
      · split <;> rfl
  rw [← stored_deleteSignals, ← stored_upsertSignal now, Db.Stored, Db.Stored, htable]

def Db.Credits (db : Db) (t : Title) (s : Signal) (sqlNow : ℤ) : Prop :=
  s.outcome.isSome = true ∧ (db.creditedRec t sqlNow).isSome = true

/-- **An event adds its outcome where it is credited**, and a dot takes the others away there. -/
theorem hasOutcome_feedback (hdb : db.Numbered) {now sqlNow : ℤ} :
    (db.feedback t s now sqlNow).HasOutcome t' o' ↔
      (db.Credits t s sqlNow ∧ t' = t ∧ s.outcome = some o') ∨ (db.HasOutcome t' o' ∧
        ¬ (db.Credits t s sqlNow ∧ s.isDot = true ∧ t' = t ∧ o' ∈ dotOutcomes)) := by
  have hrec : ((db.deleteSignals t s.clears).upsertSignal t s now).creditedRec t sqlNow =
      db.creditedRec t sqlNow := rfl
  simp only [Db.feedback, hrec, Db.Credits]
  split
  · next ho =>
    simp only [ho, Option.isSome_none, Bool.false_eq_true, false_and, false_or, not_false_eq_true,
      and_true]
    rfl
  · next o ho =>
    split
    · next hr =>
      simp only [hr, Option.isSome_none, Bool.false_eq_true, and_false, false_and, false_or,
        not_false_eq_true, and_true]
      rfl
    · next r hr =>
      obtain ⟨hmem, rfl⟩ := creditedRec_mem hr
      simp only [ho, hr, Option.isSome_some, and_self, true_and, Option.some.injEq]
      -- the outcomes stand in a database whose log and outcomes are those of `db`
      have hnum : ((db.deleteSignals r.title s.clears).upsertSignal r.title s now).Numbered :=
        ⟨hdb.unique, hdb.rec_le, hdb.outcome_le⟩
      split
      · next hdot =>
        have hnum' : (((db.deleteSignals r.title s.clears).upsertSignal r.title s
            now).deleteOutcomes r.title dotOutcomes).Numbered :=
          ⟨hdb.unique, hdb.rec_le, fun k hk => hdb.outcome_le k (Table.mem_retainKeys.mp hk).1⟩
        rw [hasOutcome_upsertOutcome hnum' hmem, hasOutcome_deleteOutcomes hnum, eq_comm (a := o)]
        simp only [hdot, true_and]
        rfl
      · next hdot =>
        rw [hasOutcome_upsertOutcome hnum hmem, eq_comm (a := o)]
        exact or_congr Iff.rfl (and_iff_left fun h => hdot h.1).symm

/-! Clearing. -/

/-- **Some signals and outcomes of a title are gone**, and nothing else has changed. -/
structure Db.Clears (db db' : Db) (t : Title) (signals : List Signal) (outcomes : List Outcome) :
    Prop where
  numbered : db'.Numbered
  stored : ∀ t' s', db'.Stored t' s' ↔ db.Stored t' s' ∧ ¬ (t' = t ∧ s' ∈ signals)
  hasOutcome : ∀ t' o', db'.HasOutcome t' o' ↔ db.HasOutcome t' o' ∧ ¬ (t' = t ∧ o' ∈ outcomes)

theorem clears_pair (hdb : db.Numbered) (t : Title) (p : Signal × Outcome) :
    db.Clears ((db.deleteSignals t [p.1]).deleteOutcomes t [p.2]) t [p.1] [p.2] := by
  have hnum : (db.deleteSignals t [p.1]).Numbered := ⟨hdb.unique, hdb.rec_le, hdb.outcome_le⟩
  constructor
  · exact ⟨hdb.unique, hdb.rec_le, fun k hk => hdb.outcome_le k (Table.mem_retainKeys.mp hk).1⟩
  · exact fun t' s' => stored_deleteSignals
  · exact fun t' o' => hasOutcome_deleteOutcomes hnum

theorem clears_foldl (t : Title) (pairs : List (Signal × Outcome)) : ∀ {db : Db}, db.Numbered →
    db.Clears (pairs.foldl (fun db p => (db.deleteSignals t [p.1]).deleteOutcomes t [p.2]) db) t
      (pairs.map Prod.fst) (pairs.map Prod.snd) := by
  induction pairs with
  | nil => exact fun h => ⟨h, fun _ _ => by simp, fun _ _ => by simp⟩
  | cons p pairs ih =>
    intro db hdb
    have hone := clears_pair hdb t p
    have hrest := ih hone.numbered
    refine ⟨hrest.numbered, fun t' s' => ?_, fun t' o' => ?_⟩
    · refine (hrest.stored t' s').trans ?_
      rw [hone.stored, List.map_cons, List.mem_singleton, List.mem_cons]
      tauto
    · refine (hrest.hasOutcome t' o').trans ?_
      rw [hone.hasOutcome, List.map_cons, List.mem_singleton, List.mem_cons]
      tauto

/-! What is shown, and what is swept. -/

/-- **Signals and outcomes stay**, whatever else is written. -/
structure Db.Keeps (db db' : Db) : Prop where
  numbered : db'.Numbered
  stored : ∀ t s, db'.Stored t s ↔ db.Stored t s
  hasOutcome : ∀ t o, db'.HasOutcome t o ↔ db.HasOutcome t o

theorem Db.Keeps.trans {db db' db'' : Db} (h : db.Keeps db') (h' : db'.Keeps db'') :
    db.Keeps db'' :=
  ⟨h'.numbered, fun t s => (h'.stored t s).trans (h.stored t s),
    fun t o => (h'.hasOutcome t o).trans (h.hasOutcome t o)⟩

theorem Db.Keeps.foldl {ι : Type} {f : Db → ι → Db}
    (hf : ∀ (db : Db) i, db.Numbered → db.Keeps (f db i)) (items : List ι) :
    ∀ {db : Db}, db.Numbered → db.Keeps (items.foldl f db) := by
  induction items with
  | nil => exact fun h => ⟨h, fun _ _ => Iff.rfl, fun _ _ => Iff.rfl⟩
  | cons i items ih => exact fun h => (hf _ i h).trans (ih (hf _ i h).numbered)

theorem keeps_insertRec (hdb : db.Numbered) (t : Title) (now : ℤ) :
    db.Keeps (db.insertRec t now) := by
  refine ⟨⟨?_, ?_, ?_⟩, fun _ _ => Iff.rfl, fun t' o' => ⟨?_, ?_⟩⟩
  · intro r hr r' hr' hid
    rcases List.mem_append.mp hr with hr | hr <;> rcases List.mem_append.mp hr' with hr' | hr'
    · exact hdb.unique r hr r' hr' hid
    · have hle := hdb.rec_le r hr
      obtain rfl := List.mem_singleton.mp hr'
      exact absurd hid (by show r.id ≠ db.seq + 1; omega)
    · have hle := hdb.rec_le r' hr'
      obtain rfl := List.mem_singleton.mp hr
      exact absurd hid (by show db.seq + 1 ≠ r'.id; omega)
    · obtain rfl := List.mem_singleton.mp hr
      obtain rfl := List.mem_singleton.mp hr'
      rfl
  · intro r hr
    rcases List.mem_append.mp hr with hr | hr
    · exact Nat.le_succ_of_le (hdb.rec_le r hr)
    · obtain rfl := List.mem_singleton.mp hr
      exact le_rfl
  · exact fun k hk => Nat.le_succ_of_le (hdb.outcome_le k hk)
  · rintro ⟨r, hr, ht, hmem⟩
    rcases List.mem_append.mp hr with hr | hr
    · exact ⟨r, hr, ht, hmem⟩
    · obtain rfl := List.mem_singleton.mp hr
      exact absurd (hdb.outcome_le _ hmem) (by show ¬ db.seq + 1 ≤ db.seq; omega)
  · rintro ⟨r, hr, ht, hmem⟩
    exact ⟨r, List.mem_append_left _ hr, ht, hmem⟩

theorem keeps_upsertShown (hdb : db.Numbered) (t : Title) (now : ℤ) :
    db.Keeps (db.upsertShown t now) :=
  ⟨⟨hdb.unique, hdb.rec_le, hdb.outcome_le⟩, fun _ _ => Iff.rfl, fun _ _ => Iff.rfl⟩

theorem keeps_trimRecentlyShown (hdb : db.Numbered) (sqlNow : ℤ) :
    db.Keeps (db.trimRecentlyShown sqlNow) :=
  ⟨⟨hdb.unique, hdb.rec_le, hdb.outcome_le⟩, fun _ _ => Iff.rfl, fun _ _ => Iff.rfl⟩

theorem keeps_impressions (hdb : db.Numbered) (sub : String) (kind : Kind) (items : List ℤ)
    (now sqlNow : ℤ) : db.Keeps (db.impressions sub kind items now sqlNow) := by
  have hlogged : db.Keeps (items.foldl (fun db id => db.insertRec ⟨sub, kind, id⟩ now) db) :=
    Db.Keeps.foldl (fun _ _ hdb => keeps_insertRec hdb _ now) items hdb
  have hshown := hlogged.trans
    (Db.Keeps.foldl (fun _ id hdb => keeps_upsertShown hdb ⟨sub, kind, id⟩ now) items
      hlogged.numbered)
  exact hshown.trans (keeps_trimRecentlyShown hshown.numbered sqlNow)

/-- **The sweep drops no recommendation with an outcome.** -/
theorem keeps_sweep (hdb : db.Numbered) (days sqlNow : ℤ) :
    db.Keeps (db.sweepRetentionOnce days sqlNow) := by
  refine ⟨⟨?_, ?_, hdb.outcome_le⟩, fun _ _ => Iff.rfl, fun t' o' => ⟨?_, ?_⟩⟩
  · exact fun r hr r' hr' =>
      hdb.unique r (List.mem_of_mem_filter hr) r' (List.mem_of_mem_filter hr')
  · exact fun r hr => hdb.rec_le r (List.mem_of_mem_filter hr)
  · rintro ⟨r, hr, ht, hmem⟩
    exact ⟨r, List.mem_of_mem_filter hr, ht, hmem⟩
  · rintro ⟨r, hr, ht, hmem⟩
    have hany : (db.recOutcomes.keys.any fun k => k.1 = r.id) = true :=
      List.any_eq_true.mpr ⟨(r.id, o'), AList.mem_keys.mp hmem, by simp⟩
    exact ⟨r, List.mem_filter.mpr ⟨hr, by simp [hany]⟩, ht, hmem⟩

/-! ### What holds in every run -/

/-- **What holds of the tables**: they are numbered, and signals and outcomes agree. -/
structure Db.Inv (db : Db) : Prop where
  numbered : db.Numbered
  coherent : Coherent db

theorem Db.Keeps.inv {db' : Db} (h : db.Keeps db') (hdb : db.Inv) : db'.Inv := by
  obtain ⟨-, hunmixed, hsingle, hbacked⟩ := hdb
  refine ⟨h.numbered, fun t p n hp hn => ?_, fun t o o' ho ho' => ?_, fun t s o hs ho => ?_⟩
  · rw [h.stored, h.stored]
    exact hunmixed t p n hp hn
  · rw [h.hasOutcome, h.hasOutcome]
    exact hsingle t o o' ho ho'
  · rw [h.hasOutcome, h.stored]
    exact hbacked t s o hs ho

theorem mem_clearPairs {signal : Option Signal} (hs : s' ∈ (Db.clearPairs signal).map Prod.fst)
    (ho : s'.outcome = some o') : o' ∈ (Db.clearPairs signal).map Prod.snd := by
  rcases signal with _ | signal
  · revert ho hs
    cases s' <;> cases o' <;> decide
  · revert ho hs
    cases signal <;> cases s' <;> cases o' <;> decide

theorem inv_clearFeedback (hdb : db.Inv) (t : Title) (signal : Option Signal) :
    (db.clearFeedback t signal).Inv := by
  have h := clears_foldl t (Db.clearPairs signal) hdb.numbered
  obtain ⟨-, hunmixed, hsingle, hbacked⟩ := hdb
  refine ⟨h.numbered, fun t' p n hp hn hstored => ?_, fun t' o o' ho ho' hhas hhas' => ?_,
    fun t' s' o' hs ho hhas => ?_⟩
  · rw [Db.clearFeedback, h.stored] at hstored ⊢
    exact fun hneg => hunmixed t' p n hp hn hstored.1 hneg.1
  · exact hsingle t' o o' ho ho' ((h.hasOutcome _ _).mp hhas).1 ((h.hasOutcome _ _).mp hhas').1
  · obtain ⟨hhas, hkept⟩ := (h.hasOutcome _ _).mp hhas
    refine (h.stored _ _).mpr ⟨hbacked t' s' o' hs ho hhas, ?_⟩
    exact fun hcleared => hkept ⟨hcleared.1, mem_clearPairs hcleared.2 ho⟩

/-! The signals among themselves. -/

theorem clears_of_opposed (hs : s.positive = true) (hs' : s'.negative = true) :
    s' ∈ s.clears ∧ s ∈ s'.clears := by
  revert hs hs'
  cases s <;> cases s' <;> decide

theorem not_mem_clears (s : Signal) : s ∉ s.clears := by
  cases s <;> decide

theorem isDot_iff (ho : s.outcome = some o) : s.isDot = true ↔ o ∈ dotOutcomes := by
  revert ho
  cases s <;> cases o <;> decide

theorem eq_of_outcome (ho : s.outcome = some o) (ho' : s'.outcome = some o) : s = s' := by
  revert ho ho'
  cases s <;> cases s' <;> cases o <;> decide

theorem mem_contradicted :
    o ∈ s.contradicted ↔ ∃ s' ∈ s.clears, s'.isDot = true ∧ s'.outcome = some o := by
  simp only [Signal.contradicted, List.mem_filterMap, List.mem_filter, and_assoc]

theorem numbered_feedback (hdb : db.Numbered) (t : Title) (s : Signal) (now sqlNow : ℤ) :
    (db.feedback t s now sqlNow).Numbered := by
  have hrec : ((db.deleteSignals t s.clears).upsertSignal t s now).creditedRec t sqlNow =
      db.creditedRec t sqlNow := rfl
  simp only [Db.feedback, hrec]
  split
  · exact ⟨hdb.unique, hdb.rec_le, hdb.outcome_le⟩
  · split
    · exact ⟨hdb.unique, hdb.rec_le, hdb.outcome_le⟩
    · next r hr =>
      have hle := hdb.rec_le r (creditedRec_mem hr).1
      split
      · refine ⟨hdb.unique, hdb.rec_le, fun k hk => ?_⟩
        rcases (AList.mem_insert _).mp hk with rfl | hk
        · exact hle
        · exact hdb.outcome_le k (Table.mem_retainKeys.mp hk).1
      · refine ⟨hdb.unique, hdb.rec_le, fun k hk => ?_⟩
        rcases (AList.mem_insert _).mp hk with rfl | hk
        · exact hle
        · exact hdb.outcome_le k hk

/-- **An event that settles keeps signals and outcomes in agreement.** -/
theorem inv_feedback (hdb : db.Inv) {now sqlNow : ℤ}
    (hsettles : SettlesAt db sqlNow (.feedback t s)) : (db.feedback t s now sqlNow).Inv := by
  obtain ⟨hnum, hunmixed, hsingle, hbacked⟩ := hdb
  refine ⟨numbered_feedback hnum t s now sqlNow, ?_, ?_, ?_⟩
  · intro t' p n hp hn hp' hn'
    rw [stored_feedback] at hp' hn'
    rcases hp' with ⟨rfl, rfl⟩ | ⟨hp', hkept⟩ <;> rcases hn' with ⟨ht, rfl⟩ | ⟨hn', hkept'⟩
    · exact not_mem_clears _ (clears_of_opposed hp hn).1
    · exact hkept' ⟨rfl, (clears_of_opposed hp hn).1⟩
    · exact hkept ⟨ht, (clears_of_opposed hp hn).2⟩
    · exact hunmixed t' p n hp hn hp' hn'
  · intro t' o o' ho ho' hhas hhas'
    rw [hasOutcome_feedback hnum] at hhas hhas'
    rcases hhas with ⟨hcredit, ht, hs⟩ | ⟨hhas, hkept⟩ <;>
      rcases hhas' with ⟨hcredit', ht', hs'⟩ | ⟨hhas', hkept'⟩
    · exact Option.some.inj (hs.symm.trans hs')
    · -- the new outcome is a dot's, and took the other away
      exact absurd ⟨hcredit, (isDot_iff hs).mpr ho, ht, ho'⟩ hkept'
    · exact absurd ⟨hcredit', (isDot_iff hs').mpr ho', ht', ho⟩ hkept
    · exact hsingle t' o o' ho ho' hhas hhas'
  · intro t' s' o hs' ho hhas
    rw [stored_feedback]
    rw [hasOutcome_feedback hnum] at hhas
    rcases hhas with ⟨-, rfl, hs⟩ | ⟨hhas, hkept⟩
    · exact Or.inl ⟨rfl, eq_of_outcome ho hs⟩
    · refine Or.inr ⟨hbacked t' s' o hs' ho hhas, ?_⟩
      rintro ⟨rfl, hclear⟩
      rcases hsettles with ⟨hdot, hcredit⟩ | hnone
      · -- a dot that is credited has taken the outcome away
        have hsome : s.outcome.isSome = true := by
          revert hdot
          cases s <;> decide
        exact hkept ⟨⟨hsome, hcredit⟩, hdot, rfl, (isDot_iff ho).mp hs'⟩
      · exact hnone o (mem_contradicted.mpr ⟨s', hclear, hs', ho⟩) hhas

/-- **An event that does not settle leaves an outcome without its signal.** -/
theorem not_coherent_of_not_settles (hnum : db.Numbered) {now sqlNow : ℤ}
    (hsettles : ¬ SettlesAt db sqlNow (.feedback t s)) :
    ¬ Coherent (db.feedback t s now sqlNow) := by
  intro hcoherent
  obtain ⟨hcredit, hleft⟩ := not_or.mp hsettles
  push Not at hleft
  obtain ⟨o, ho, hhas⟩ := hleft
  obtain ⟨s', hclear, hdot, hs'⟩ := mem_contradicted.mp ho
  have hhas' : (db.feedback t s now sqlNow).HasOutcome t o :=
    (hasOutcome_feedback hnum).mpr (Or.inr ⟨hhas, fun h => hcredit ⟨h.2.1, h.1.2⟩⟩)
  rcases stored_feedback.mp (hcoherent.backed t s' o hdot hs' hhas') with ⟨-, rfl⟩ | ⟨-, hkept⟩
  · exact not_mem_clears _ hclear
  · exact hkept ⟨rfl, hclear⟩

/-! ### Every run -/

theorem Db.Inv.empty : Db.empty.Inv := by
  have hnone : ∀ t o, ¬ Db.empty.HasOutcome t o := by
    rintro t o ⟨r, hr, -⟩
    cases hr
  refine ⟨⟨?_, ?_, ?_⟩, ?_, ?_, ?_⟩
  · rintro r ⟨⟩
  · rintro r ⟨⟩
  · rintro k ⟨⟩
  · rintro t p n - - ⟨⟩
  · exact fun t o o' _ _ h => absurd h (hnone t o)
  · exact fun t s o _ _ h => absurd h (hnone t o)

theorem step_eq_some {db' : Db} {a : EventAt} (h : step db a = some db') :
    db' = { db.apply a with clock := a.sqlNow } :=
  (Option.some.inj (Option.ite_none_right_eq_some.mp h).2).symm

theorem inv_clock (c : ℤ) : ({ db with clock := c } : Db).Inv ↔ db.Inv := by
  constructor <;> rintro ⟨⟨hu, hr, ho⟩, ⟨hm, hs, hb⟩⟩ <;> exact ⟨⟨hu, hr, ho⟩, ⟨hm, hs, hb⟩⟩

/-- **What a transaction keeps**: signals and outcomes agree after it exactly if it settles. -/
theorem inv_step (hdb : db.Inv) {db' : Db} {a : EventAt} (h : step db a = some db') :
    (Settles db a → db'.Inv) ∧ (¬ Settles db a → ¬ Coherent db') := by
  obtain rfl := step_eq_some h
  rcases a with ⟨now, sqlNow, ⟨t, s⟩ | ⟨t, signal⟩ | ⟨sub, kind, items⟩ | days⟩
  · refine ⟨fun hsettles => (inv_clock _).mpr (inv_feedback hdb hsettles), fun hsettles => ?_⟩
    rintro ⟨hm, hs, hb⟩
    have hcoherent : Coherent (db.feedback t s now sqlNow) := ⟨hm, hs, hb⟩
    exact not_coherent_of_not_settles hdb.numbered hsettles hcoherent
  · exact ⟨fun _ => (inv_clock _).mpr (inv_clearFeedback hdb t signal), fun h => absurd trivial h⟩
  · refine ⟨fun _ => (inv_clock _).mpr ?_, fun h => absurd trivial h⟩
    exact (keeps_impressions hdb.numbered sub kind items now sqlNow).inv hdb
  · refine ⟨fun _ => (inv_clock _).mpr ?_, fun h => absurd trivial h⟩
    exact (keeps_sweep hdb.numbered days sqlNow).inv hdb

theorem Db.Inv.runs (h : Runs step Settles .empty db) : db.Inv :=
  h.invariant .empty fun _ _ _ hdb hsettles hstep => (inv_step hdb hstep).1 hsettles

/-- **Signals and outcomes agree** in every run whose events settle; and the first event that does
not settle leaves them in disagreement. -/
theorem coherent_of_runs (h : Runs step Settles .empty db) :
    Coherent db ∧ ∀ a db', step db a = some db' → (Coherent db' ↔ Settles db a) := by
  have hdb := Db.Inv.runs h
  refine ⟨hdb.coherent, fun a db' hstep => ⟨fun hcoherent => ?_, fun hsettles => ?_⟩⟩
  · by_contra hsettles
    exact (inv_step hdb hstep).2 hsettles hcoherent
  · exact ((inv_step hdb hstep).1 hsettles).coherent

/-- A title is shown, liked after a minute, and disliked after five. -/
theorem coherent_of_runs_soon : ∃ db, Runs step Settles .empty db ∧
    db.HasOutcome ⟨"plex:1", .movie, 603⟩ .disliked ∧ Coherent db := by
  have h : ∃ db, exec (guarded step Settles) Db.empty
      [⟨0, 0, .impressions "plex:1" .movie [603]⟩,
        ⟨60000000, 60000000, .feedback ⟨"plex:1", .movie, 603⟩ .like⟩,
        ⟨300000000, 300000000, .feedback ⟨"plex:1", .movie, 603⟩ .dislike⟩] = some db ∧
      db.HasOutcome ⟨"plex:1", .movie, 603⟩ .disliked :=
    ⟨_, rfl, ⟨1, ⟨"plex:1", .movie, 603⟩, 0⟩, List.mem_singleton.mpr rfl, rfl,
      AList.mem_keys.mpr (List.mem_singleton.mpr rfl)⟩
  obtain ⟨db, hexec, hhas⟩ := h
  have hruns := runs_of_exec_guarded hexec
  exact ⟨db, hruns, hhas, (coherent_of_runs hruns).1⟩

/-- The title is disliked after eleven minutes: the outcome of the like outlives the like. -/
theorem not_coherent_late : ¬ ∀ db, Runs step anyStep .empty db → Coherent db := by
  intro hall
  have h : ∃ db, exec step Db.empty
      [⟨0, 0, .impressions "plex:1" .movie [603]⟩,
        ⟨60000000, 60000000, .feedback ⟨"plex:1", .movie, 603⟩ .like⟩,
        ⟨660000000, 660000000, .feedback ⟨"plex:1", .movie, 603⟩ .dislike⟩] = some db ∧
      db.HasOutcome ⟨"plex:1", .movie, 603⟩ .liked ∧
      db.userFeedback.keys = [(⟨"plex:1", .movie, 603⟩, .dislike)] :=
    ⟨_, rfl, ⟨⟨1, ⟨"plex:1", .movie, 603⟩, 0⟩, List.mem_singleton.mpr rfl, rfl,
      AList.mem_keys.mpr (List.mem_singleton.mpr rfl)⟩, rfl⟩
  obtain ⟨db, hexec, hhas, hkeys⟩ := h
  have hstored := (hall db (runs_of_exec hexec)).backed _ .like .liked rfl rfl hhas
  rw [Db.Stored, AList.mem_keys, hkeys, List.mem_singleton] at hstored
  cases hstored

end EmeraldExchange.Recommender
