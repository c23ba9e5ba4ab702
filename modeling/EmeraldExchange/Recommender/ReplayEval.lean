import Mathlib.Data.Finset.Sort
import Mathlib.Data.String.Basic
import EmeraldExchange.Lib.JsonTree
import EmeraldExchange.Recommender.Context

/-!
# Replaying a household as it stood

The offline eval rebuilds what the recommender knew of a household at a cutoff and scores a recipe
against what happened after. The library, the signals and the recommendations are dated, so they are
cut; the backend's lists of likes and dislikes are not, and the only way to tell that an entry is
from after the cutoff is a dated record of the same title. The eval takes out of the lists the
titles that it tests on, those that were judged after the cutoff one way only.

That is less than it should take out (`not_blind_like`). A
`like` is no judgment to it, nor is a `reject`; a title that was judged both ways is not tested on,
and stays; and an outcome counts when the recommendation was shown, not when it came. When nothing
after the cutoff is seen is `blind_iff`.

Dates are texts, and are compared as texts.
-/

namespace EmeraldExchange.Recommender.ReplayEval

/-! ### The snapshot -/

/-- A row of `user_feedback`. -/
structure FeedbackRow where
  sub : String
  kind : Kind
  tmdbId : ℤ
  signal : String
  ts : String
  deriving DecidableEq

/-- A row of `rec_log`. -/
structure RecLogRow where
  id : ℤ
  sub : String
  kind : Kind
  tmdbId : ℤ
  ts : String
  deriving DecidableEq

/-- A row of `rec_outcomes`. -/
structure OutcomeRow where
  recId : ℤ
  outcome : String
  ts : String
  deriving DecidableEq

/-- **A snapshot**: the tables and the backend's files. -/
structure Snapshot where
  /-- Whose judgments are replayed. -/
  owner : String
  /-- What `library.json` has under a kind. -/
  library : Kind → JsonTree
  userFeedback : JsonTree
  rejections : JsonTree
  feedbackRows : List FeedbackRow
  recLog : List RecLogRow
  recOutcomes : List OutcomeRow

/-- The elements of an array, none of anything else. -/
def elems (v : JsonTree) : List JsonTree := v.asArray.getD []

/-- The `id`s of a list of objects. -/
def ids (v : JsonTree) : Finset ℤ := ((elems v).filterMap fun e => (e.index "id").asI64).toFinset

def libraryId (x : JsonTree) : Option ℤ := (x.index "tmdbId").asI64.filter fun i => i ≠ 0

def addedDate (x : JsonTree) : Option String := (x.index "added").asStr

/-- The library before the cutoff, with its titles, and what was added after. -/
def splitLibrary (kind : Kind) (cutoff : String) :
    List JsonTree → Except String (List (ℤ × Option String) × List ℤ)
  | [] => .ok ([], [])
  | x :: xs =>
    match libraryId x with
    | none => splitLibrary kind cutoff xs
    | some id =>
      match addedDate x with
      | none => .error s!"library.json {kind.asStr} {id}: no added date"
      | some added =>
        match splitLibrary kind cutoff xs with
        | .error e => .error e
        | .ok (before, after) =>
          if added < cutoff then .ok ((id, (x.index "title").asStr) :: before, after)
          else .ok (before, id :: after)

def posSignals : List String := ["added", "clicked", "watched"]

def posOutcomes : List String := ["added", "clicked"]

namespace Snapshot

variable (snap : Snapshot) (kind : Kind) (cutoff : String)

def rows : List FeedbackRow :=
  snap.feedbackRows.filter fun r => r.sub = snap.owner && r.kind = kind

/-- The titles with a signal of one sort, on one side of the cutoff. -/
def pick (pos afterT : Bool) : Finset ℤ :=
  (((snap.rows kind).filter fun r =>
    (if pos then r.signal ∈ posSignals else r.signal = "dislike") &&
      decide (cutoff ≤ r.ts) = afterT).map (·.tmdbId)).toFinset

/-- The owner's recommendations with each of their outcomes, or none. -/
def out : List (RecLogRow × Option OutcomeRow) :=
  (snap.recLog.filter fun l => l.sub = snap.owner && l.kind = kind).flatMap fun l =>
    match snap.recOutcomes.filter fun o => o.recId = l.id with
    | [] => [(l, none)]
    | os => os.map fun o => (l, some o)

/-- The titles that were shown on one side of the cutoff, with an outcome that is wanted. -/
def served (afterT : Bool) (want : Option String → Bool) : Finset ℤ :=
  (((snap.out kind).filter fun p =>
    decide (cutoff ≤ p.1.ts) = afterT && want (p.2.map (·.outcome))).map (·.1.tmdbId)).toFinset

end Snapshot

def isPos (o : Option String) : Bool := o.any fun o => o ∈ posOutcomes

def isNeg (o : Option String) : Bool := o = some "disliked"

/-! ### The household at the cutoff -/

structure Household where
  /-- Owned before the cutoff, in the order of the file. -/
  library : List (ℤ × Option String)
  engaged : Finset ℤ
  liked : Finset ℤ
  disliked : Finset ℤ
  rejected : Finset ℤ
  testPos : Finset ℤ
  testNeg : Finset ℤ
  /-- Served after the cutoff. -/
  testImp : Finset ℤ
  futureAdds : Finset ℤ

namespace Snapshot

variable (snap : Snapshot) (kind : Kind) (cutoff : String)

def backend : JsonTree := (snap.userFeedback.index snap.owner).index kind.asStr

/-- The titles with a positive judgment after the cutoff. -/
def posAfter (after : List ℤ) : Finset ℤ :=
  snap.pick kind cutoff true true ∪ snap.served kind cutoff true isPos ∪ after.toFinset

/-- The titles with a negative judgment after the cutoff. -/
def negAfter : Finset ℤ := snap.pick kind cutoff false true ∪ snap.served kind cutoff true isNeg

/-- The titles with a negative judgment before the cutoff. -/
def negBefore : Finset ℤ := snap.pick kind cutoff false false ∪ snap.served kind cutoff false isNeg

end Snapshot

/-- **The household as it stood at a cutoff.** -/
def household (snap : Snapshot) (kind : Kind) (cutoff : String) : Except String Household :=
  match splitLibrary kind cutoff (elems (snap.library kind)) with
  | .error e => .error e
  | .ok (before, after) =>
    let engBefore := snap.pick kind cutoff true false
    let posAfter := snap.posAfter kind cutoff after
    let negAfter := snap.negAfter kind cutoff
    let ownedBefore := (before.map Prod.fst).toFinset
    let conflict := posAfter ∩ negAfter
    let testPos := (posAfter \ conflict) \ ownedBefore
    let testNeg := (negAfter \ conflict) \ ownedBefore
    let testIds := testPos ∪ testNeg
    -- The backend's lists carry no date: what is not judged after the cutoff is known at it.
    let disliked := ids ((snap.backend kind).index "disliked") ∪ snap.negBefore kind cutoff
    .ok {
      library := before
      engaged := engBefore \ testIds
      liked := ids ((snap.backend kind).index "liked") \ testIds
      disliked := disliked \ testIds
      rejected := ids (snap.rejections.index kind.asStr) \ testIds
      testPos := testPos
      testNeg := testNeg
      testImp := snap.served kind cutoff true fun _ => true
      futureAdds := after.toFinset \ negAfter }

/-- **The request that asks for the context.** -/
def contextRequest (hh : Household) (kind : Kind) : Score where
  sub := "eval:replay"
  kind := kind
  n := 50
  excludeRecentlyShown := false
  library := some (hh.library.map fun p => ⟨some p.1, p.2⟩)
  feedback := some
    ([(hh.liked, "like"), (hh.engaged, "added"), (hh.disliked, "dislike")].flatMap fun s =>
      ((s.1.filter fun i => 0 < i).sort (· ≤ ·)).map fun i => (i, s.2))
  householdRejections := some ((hh.rejected.filter fun i => 0 < i).sort (· ≤ ·))

/-! ### The records of a title -/

namespace Snapshot

variable (snap : Snapshot) (kind : Kind)

/-- The owner has given a title a signal of some sort, at a date of some sort. -/
def HasSignal (sort dated : String → Prop) (id : ℤ) : Prop :=
  ∃ r ∈ snap.feedbackRows, r.sub = snap.owner ∧ r.kind = kind ∧ r.tmdbId = id ∧ sort r.signal ∧
    dated r.ts

/-- A recommendation of a title, shown at a date of some sort, has an outcome of some sort, at a
date of some sort. -/
def HasOutcome (sort shown dated : String → Prop) (id : ℤ) : Prop :=
  ∃ l ∈ snap.recLog, l.sub = snap.owner ∧ l.kind = kind ∧ l.tmdbId = id ∧ shown l.ts ∧
    ∃ o ∈ snap.recOutcomes, o.recId = l.id ∧ sort o.outcome ∧ dated o.ts

/-- A title was added to the library at a date of some sort. -/
def HasAddition (dated : String → Prop) (id : ℤ) : Prop :=
  ∃ x ∈ elems (snap.library kind), libraryId x = some id ∧ ∃ a, addedDate x = some a ∧ dated a

/-- **A dated record of a title**: its addition, a signal, or an outcome. -/
def Dated (id : ℤ) (d : String) : Prop :=
  snap.HasAddition kind (· = d) id ∨ snap.HasSignal kind (fun _ => True) (· = d) id ∨
    snap.HasOutcome kind (fun _ => True) (fun _ => True) (· = d) id

/-- **A title of the future**: it has dated records, all from the cutoff on. -/
def AllLate (cutoff : String) (id : ℤ) : Prop :=
  (∃ d, snap.Dated kind id d) ∧ ∀ d, snap.Dated kind id d → cutoff ≤ d

/-- A title that counts as liked after the cutoff. -/
def JudgedPos (cutoff : String) (id : ℤ) : Prop :=
  snap.HasSignal kind (· ∈ posSignals) (cutoff ≤ ·) id ∨
    snap.HasOutcome kind (· ∈ posOutcomes) (cutoff ≤ ·) (fun _ => True) id ∨
    snap.HasAddition kind (cutoff ≤ ·) id

/-- A title that counts as disliked after the cutoff. -/
def JudgedNeg (cutoff : String) (id : ℤ) : Prop :=
  snap.HasSignal kind (· = "dislike") (cutoff ≤ ·) id ∨
    snap.HasOutcome kind (· = "disliked") (cutoff ≤ ·) (fun _ => True) id

/-- A title that was judged after the cutoff, one way only. -/
def JudgedOneWay (cutoff : String) (id : ℤ) : Prop :=
  (snap.JudgedPos kind cutoff id ∧ ¬ snap.JudgedNeg kind cutoff id) ∨
    (¬ snap.JudgedPos kind cutoff id ∧ snap.JudgedNeg kind cutoff id)

/-- A title that was disliked before the cutoff, an outcome counting when its recommendation was
shown. -/
def EarlyNeg (cutoff : String) (id : ℤ) : Prop :=
  snap.HasSignal kind (· = "dislike") (fun d => ¬ cutoff ≤ d) id ∨
    snap.HasOutcome kind (· = "disliked") (fun d => ¬ cutoff ≤ d) (fun _ => True) id

/-- A title that is tested on: judged one way, and not owned before. -/
def Tested (cutoff : String) (id : ℤ) : Prop :=
  snap.JudgedOneWay kind cutoff id ∧ ¬ snap.HasAddition kind (fun d => ¬ cutoff ≤ d) id

end Snapshot

variable {snap : Snapshot} {kind : Kind} {cutoff : String} {id : ℤ} {hh : Household}

theorem mem_pick {pos afterT : Bool} : id ∈ snap.pick kind cutoff pos afterT ↔
    snap.HasSignal kind (fun s => if pos then s ∈ posSignals else s = "dislike")
      (fun d => decide (cutoff ≤ d) = afterT) id := by
  simp only [Snapshot.pick, Snapshot.rows, Snapshot.HasSignal, List.mem_toFinset, List.mem_map,
    List.mem_filter, Bool.and_eq_true, decide_eq_true_eq, and_assoc]
  constructor
  · rintro ⟨r, hr, howner, hkind, hsort, hdate, rfl⟩
    refine ⟨r, hr, howner, hkind, rfl, ?_, hdate⟩
    rcases pos with _ | _ <;> simpa using hsort
  · rintro ⟨r, hr, howner, hkind, rfl, hsort, hdate⟩
    refine ⟨r, hr, howner, hkind, ?_, hdate, rfl⟩
    rcases pos with _ | _ <;> simpa using hsort

theorem mem_served {afterT : Bool} {want : Option String → Bool} (hwant : want none = false) :
    id ∈ snap.served kind cutoff afterT want ↔
      snap.HasOutcome kind (fun o => want (some o) = true)
        (fun d => decide (cutoff ≤ d) = afterT) (fun _ => True) id := by
  simp only [Snapshot.served, Snapshot.out, Snapshot.HasOutcome, List.mem_toFinset, List.mem_map,
    List.mem_filter, List.mem_flatMap, Bool.and_eq_true, decide_eq_true_eq]
  constructor
  · rintro ⟨⟨l', o⟩, ⟨⟨l, ⟨hl, howner, hkind⟩, hmem⟩, hdate, hw⟩, rfl⟩
    split at hmem
    · obtain ⟨rfl, rfl⟩ := Prod.mk.inj (List.mem_singleton.mp hmem)
      rw [Option.map_none, hwant] at hw
      cases hw
    · next os _ =>
      obtain ⟨o', ho', heq⟩ := List.mem_map.mp hmem
      obtain ⟨rfl, rfl⟩ := Prod.mk.inj heq
      have hof := List.mem_filter.mp ho'
      exact ⟨l, hl, howner, hkind, rfl, hdate, o', hof.1, by simpa using hof.2, hw, trivial⟩
  · rintro ⟨l, hl, howner, hkind, rfl, hdate, o, ho, hrec, hw, -⟩
    refine ⟨(l, some o), ⟨⟨l, ⟨hl, howner, hkind⟩, ?_⟩, hdate, hw⟩, rfl⟩
    have hmem : o ∈ snap.recOutcomes.filter fun o => o.recId = l.id :=
      List.mem_filter.mpr ⟨ho, by simpa using hrec⟩
    split
    · next hnil => exact absurd (hnil ▸ hmem) List.not_mem_nil
    · exact List.mem_map.mpr ⟨o, hmem, rfl⟩

/-- **How the library is split.** -/
theorem splitLibrary_spec : ∀ {xs : List JsonTree} {before : List (ℤ × Option String)}
    {after : List ℤ}, splitLibrary kind cutoff xs = .ok (before, after) →
    (∀ id, id ∈ before.map Prod.fst ↔
      ∃ x ∈ xs, libraryId x = some id ∧ ∃ a, addedDate x = some a ∧ ¬ cutoff ≤ a) ∧
    ∀ id, id ∈ after ↔
      ∃ x ∈ xs, libraryId x = some id ∧ ∃ a, addedDate x = some a ∧ cutoff ≤ a
  | [], before, after, h => by
    obtain ⟨rfl, rfl⟩ := Prod.mk.inj (Except.ok.inj h)
    simp
  | x :: xs, before, after, h => by
    rw [splitLibrary] at h
    split at h
    · next hnone =>
      obtain ⟨hbefore, hafter⟩ := splitLibrary_spec h
      refine ⟨fun id => (hbefore id).trans ?_, fun id => (hafter id).trans ?_⟩ <;>
        simp [hnone]
    · next id₀ hid₀ =>
      split at h
      · cases h
      · next a ha =>
        split at h
        · cases h
        · next before' after' hrest =>
          obtain ⟨hbefore, hafter⟩ := splitLibrary_spec hrest
          split at h
          · next hlt =>
            obtain ⟨rfl, rfl⟩ := Prod.mk.inj (Except.ok.inj h)
            refine ⟨fun id => ?_, fun id => ?_⟩
            · rw [List.map_cons, List.mem_cons, hbefore]
              simp [hid₀, ha, hlt, eq_comm, -String.lt_iff_ltb]
            · rw [hafter]
              simp [hid₀, ha, hlt, -String.lt_iff_ltb]
          · next hge =>
            have hle : cutoff ≤ a := hge
            obtain ⟨rfl, rfl⟩ := Prod.mk.inj (Except.ok.inj h)
            refine ⟨fun id => ?_, fun id => ?_⟩
            · rw [hbefore]
              simp [hid₀, ha, hle, -String.lt_iff_ltb]
            · rw [List.mem_cons, hafter]
              simp [hid₀, ha, hle, eq_comm, -String.lt_iff_ltb]

/-- **What is in a household**, in terms of the records. -/
structure Household.Spec (hh : Household) (snap : Snapshot) (kind : Kind) (cutoff : String) :
    Prop where
  library : ∀ id, id ∈ hh.library.map Prod.fst ↔
    snap.HasAddition kind (fun d => ¬ cutoff ≤ d) id
  engaged : ∀ id, id ∈ hh.engaged ↔
    snap.HasSignal kind (· ∈ posSignals) (fun d => ¬ cutoff ≤ d) id ∧ ¬ snap.Tested kind cutoff id
  liked : ∀ id, id ∈ hh.liked ↔
    id ∈ ids ((snap.backend kind).index "liked") ∧ ¬ snap.Tested kind cutoff id
  disliked : ∀ id, id ∈ hh.disliked ↔
    (id ∈ ids ((snap.backend kind).index "disliked") ∨ snap.EarlyNeg kind cutoff id) ∧
      ¬ snap.Tested kind cutoff id
  rejected : ∀ id, id ∈ hh.rejected ↔
    id ∈ ids (snap.rejections.index kind.asStr) ∧ ¬ snap.Tested kind cutoff id

theorem isPos_some (o : String) : isPos (some o) = true ↔ o ∈ posOutcomes := by
  simp [isPos]

theorem isNeg_some (o : String) : isNeg (some o) = true ↔ o = "disliked" := by
  simp [isNeg]

theorem mem_posAfter {after : List ℤ}
    (hafter : ∀ id, id ∈ after ↔ snap.HasAddition kind (cutoff ≤ ·) id) :
    id ∈ snap.posAfter kind cutoff after ↔ snap.JudgedPos kind cutoff id := by
  rw [Snapshot.posAfter, Finset.mem_union, Finset.mem_union, mem_pick, mem_served rfl,
    List.mem_toFinset, hafter, Snapshot.JudgedPos, or_assoc]
  simp only [isPos_some, decide_eq_true_eq, if_true]

theorem mem_negAfter :
    id ∈ snap.negAfter kind cutoff ↔ snap.JudgedNeg kind cutoff id := by
  rw [Snapshot.negAfter, Finset.mem_union, mem_pick, mem_served rfl, Snapshot.JudgedNeg]
  simp only [isNeg_some, decide_eq_true_eq, Bool.false_eq_true, if_false]

theorem mem_negBefore :
    id ∈ snap.negBefore kind cutoff ↔ snap.EarlyNeg kind cutoff id := by
  rw [Snapshot.negBefore, Finset.mem_union, mem_pick, mem_served rfl, Snapshot.EarlyNeg]
  simp only [isNeg_some, decide_eq_false_iff_not, Bool.false_eq_true, if_false]

theorem household_spec (h : household snap kind cutoff = .ok hh) : hh.Spec snap kind cutoff := by
  rw [household] at h
  split at h
  · cases h
  · next before after hsplit =>
    obtain ⟨hbefore, hafter⟩ := splitLibrary_spec hsplit
    obtain rfl := Except.ok.inj h
    -- the titles that leave the lists are those that are tested on
    have htested : ∀ id, id ∈ ((snap.posAfter kind cutoff after \
          (snap.posAfter kind cutoff after ∩ snap.negAfter kind cutoff)) \
            (before.map Prod.fst).toFinset) ∪
        ((snap.negAfter kind cutoff \
          (snap.posAfter kind cutoff after ∩ snap.negAfter kind cutoff)) \
            (before.map Prod.fst).toFinset) ↔ snap.Tested kind cutoff id := by
      intro id
      simp only [Finset.mem_union, Finset.mem_sdiff, Finset.mem_inter, List.mem_toFinset]
      rw [mem_posAfter hafter, mem_negAfter, hbefore]
      simp only [Snapshot.Tested, Snapshot.JudgedOneWay, Snapshot.HasAddition]
      tauto
    refine ⟨hbefore, fun id => ?_, fun id => ?_, fun id => ?_, fun id => ?_⟩
    · rw [Finset.mem_sdiff, htested, mem_pick]
      simp only [decide_eq_false_iff_not, if_true]
    · rw [Finset.mem_sdiff, htested]
    · rw [Finset.mem_sdiff, htested, Finset.mem_union, mem_negBefore]
    · rw [Finset.mem_sdiff, htested]

/-! ### The snapshot without what came after -/

/-- An entry of the library that was added after the cutoff. -/
def lateEntry (cutoff : String) (x : JsonTree) : Bool :=
  (libraryId x).isSome && (addedDate x).any fun a => cutoff ≤ a

/-- A list of the library without what was added after. -/
def cutLibrary (cutoff : String) : JsonTree → JsonTree
  | .arr xs => .arr (xs.filter fun x => !lateEntry cutoff x)
  | v => v

/-- **The snapshot without the records from the cutoff on.** -/
def Snapshot.cut (snap : Snapshot) (cutoff : String) : Snapshot :=
  { snap with
    library := fun kind => cutLibrary cutoff (snap.library kind)
    feedbackRows := snap.feedbackRows.filter fun r => r.ts < cutoff
    recLog := snap.recLog.filter fun l => l.ts < cutoff
    recOutcomes := snap.recOutcomes.filter fun o => o.ts < cutoff }

theorem elems_cutLibrary (v : JsonTree) :
    elems (cutLibrary cutoff v) = (elems v).filter fun x => !lateEntry cutoff x := by
  rcases v with _ | _ | _ | _ | _ | _ | _ <;> rfl

theorem hasSignal_cut {sort dated : String → Prop} :
    (snap.cut cutoff).HasSignal kind sort dated id ↔
      snap.HasSignal kind sort (fun d => dated d ∧ ¬ cutoff ≤ d) id := by
  simp only [Snapshot.HasSignal, Snapshot.cut, List.mem_filter, decide_eq_true_eq]
  constructor
  · rintro ⟨r, ⟨hr, hlt⟩, howner, hkind, hid, hsort, hdate⟩
    exact ⟨r, hr, howner, hkind, hid, hsort, hdate, fun hle => hle hlt⟩
  · rintro ⟨r, hr, howner, hkind, hid, hsort, hdate, hnot⟩
    exact ⟨r, ⟨hr, Classical.not_not.mp hnot⟩, howner, hkind, hid, hsort, hdate⟩

theorem hasOutcome_cut {sort shown dated : String → Prop} :
    (snap.cut cutoff).HasOutcome kind sort shown dated id ↔
      snap.HasOutcome kind sort (fun d => shown d ∧ ¬ cutoff ≤ d)
        (fun d => dated d ∧ ¬ cutoff ≤ d) id := by
  simp only [Snapshot.HasOutcome, Snapshot.cut, List.mem_filter, decide_eq_true_eq]
  constructor
  · rintro ⟨l, ⟨hl, hlt⟩, howner, hkind, hid, hshown, o, ⟨ho, hot⟩, hrec, hsort, hdate⟩
    exact ⟨l, hl, howner, hkind, hid, ⟨hshown, fun hle => hle hlt⟩, o, ho, hrec, hsort, hdate,
      fun hle => hle hot⟩
  · rintro ⟨l, hl, howner, hkind, hid, ⟨hshown, hnot⟩, o, ho, hrec, hsort, hdate, hnot'⟩
    exact ⟨l, ⟨hl, Classical.not_not.mp hnot⟩, howner, hkind, hid, hshown, o,
      ⟨ho, Classical.not_not.mp hnot'⟩, hrec, hsort, hdate⟩

theorem hasAddition_cut {dated : String → Prop} :
    (snap.cut cutoff).HasAddition kind dated id ↔
      snap.HasAddition kind (fun d => dated d ∧ ¬ cutoff ≤ d) id := by
  have helems : elems ((snap.cut cutoff).library kind) =
      (elems (snap.library kind)).filter fun x => !lateEntry cutoff x := elems_cutLibrary _
  rw [Snapshot.HasAddition, Snapshot.HasAddition, helems]
  constructor
  · rintro ⟨x, hx, hid, a, ha, hdate⟩
    obtain ⟨hx, hlate⟩ := List.mem_filter.mp hx
    refine ⟨x, hx, hid, a, ha, hdate, fun hle => ?_⟩
    simp [lateEntry, hid, ha, hle] at hlate
  · rintro ⟨x, hx, hid, a, ha, hdate, hnot⟩
    refine ⟨x, List.mem_filter.mpr ⟨hx, ?_⟩, hid, a, ha, hdate⟩
    have hlate : lateEntry cutoff x = false := by
      rw [lateEntry, hid, ha]
      simpa using hnot
    rw [hlate]
    rfl

theorem not_tested_cut : ¬ (snap.cut cutoff).Tested kind cutoff id := by
  have hpos : ¬ (snap.cut cutoff).JudgedPos kind cutoff id := by
    rintro (h | h | h)
    · obtain ⟨r, -, -, -, -, -, hle, hnot⟩ := hasSignal_cut.mp h
      exact hnot hle
    · obtain ⟨l, -, -, -, -, ⟨hle, hnot⟩, -⟩ := hasOutcome_cut.mp h
      exact hnot hle
    · obtain ⟨x, -, -, a, -, hle, hnot⟩ := hasAddition_cut.mp h
      exact hnot hle
  have hneg : ¬ (snap.cut cutoff).JudgedNeg kind cutoff id := by
    rintro (h | h)
    · obtain ⟨r, -, -, -, -, -, hle, hnot⟩ := hasSignal_cut.mp h
      exact hnot hle
    · obtain ⟨l, -, -, -, -, ⟨hle, hnot⟩, -⟩ := hasOutcome_cut.mp h
      exact hnot hle
  rintro ⟨⟨h, -⟩ | ⟨-, h⟩, -⟩
  · exact hpos h
  · exact hneg h

theorem splitLibrary_cut : ∀ {xs : List JsonTree} {before : List (ℤ × Option String)}
    {after : List ℤ}, splitLibrary kind cutoff xs = .ok (before, after) →
    splitLibrary kind cutoff (xs.filter fun x => !lateEntry cutoff x) = .ok (before, [])
  | [], before, after, h => by
    obtain ⟨rfl, -⟩ := Prod.mk.inj (Except.ok.inj h)
    rfl
  | x :: xs, before, after, h => by
    rw [splitLibrary] at h
    split at h
    · next hid =>
      have hkeep : lateEntry cutoff x = false := by rw [lateEntry, hid]; rfl
      rw [List.filter_cons_of_pos (by rw [hkeep]; rfl), splitLibrary, hid]
      exact splitLibrary_cut h
    · next id₀ hid =>
      split at h
      · cases h
      · next a ha =>
        split at h
        · cases h
        · next before' after' hrest =>
          have ih := splitLibrary_cut hrest
          split at h
          · next hlt =>
            obtain ⟨rfl, -⟩ := Prod.mk.inj (Except.ok.inj h)
            have hkeep : lateEntry cutoff x = false := by
              rw [lateEntry, hid, ha]
              simpa [-String.lt_iff_ltb] using hlt
            rw [List.filter_cons_of_pos (by rw [hkeep]; rfl), splitLibrary, hid]
            simp only [ha, ih, if_pos hlt]
          · next hge =>
            obtain ⟨rfl, -⟩ := Prod.mk.inj (Except.ok.inj h)
            have hlate : lateEntry cutoff x = true := by
              rw [lateEntry, hid, ha]
              simpa [-String.lt_iff_ltb] using hge
            rw [List.filter_cons_of_neg (by rw [hlate]; simp)]
            exact ih

theorem household_cut (h : household snap kind cutoff = .ok hh) :
    ∃ hc, household (snap.cut cutoff) kind cutoff = .ok hc ∧ hc.library = hh.library := by
  rw [household] at h
  split at h
  · cases h
  · next before after hsplit =>
    obtain rfl := Except.ok.inj h
    have hcut : splitLibrary kind cutoff (elems ((snap.cut cutoff).library kind)) =
        .ok (before, []) := by
      have helems : elems ((snap.cut cutoff).library kind) = _ := elems_cutLibrary _
      rw [helems]
      exact splitLibrary_cut hsplit
    rw [household, hcut]
    exact ⟨_, rfl, rfl⟩

/-! ### What is seen of the future -/

/-- **No title of the future is in a household.** -/
def NoFuture (snap : Snapshot) (kind : Kind) (cutoff : String) (hh : Household) : Prop :=
  ∀ id, snap.AllLate kind cutoff id →
    id ∉ hh.library.map Prod.fst ∧ id ∉ hh.engaged ∧ id ∉ hh.liked ∧ id ∉ hh.disliked

/-- A household has nothing but what another has. -/
structure Household.Within (hh hc : Household) : Prop where
  library : hh.library = hc.library
  engaged : hh.engaged ⊆ hc.engaged
  liked : hh.liked ⊆ hc.liked
  disliked : hh.disliked ⊆ hc.disliked
  rejected : hh.rejected ⊆ hc.rejected

/-- **Nothing from the cutoff on is seen**: no title of the future is in the household, and the
records from the cutoff on only take titles away. -/
def Blind (snap : Snapshot) (kind : Kind) (cutoff : String) (hh : Household) : Prop :=
  NoFuture snap kind cutoff hh ∧
    ∀ hc, household (snap.cut cutoff) kind cutoff = .ok hc → hh.Within hc

/-- **When the lists can be cleaned.** A title of the future that a list has, or that was disliked
on a recommendation from before the cutoff, was judged after the cutoff one way only; and a title
that was disliked after the cutoff on a recommendation from before it is tested on, or known to be
disliked without that. -/
structure Cleanable (snap : Snapshot) (kind : Kind) (cutoff : String) : Prop where
  listed : ∀ id, snap.AllLate kind cutoff id →
    id ∈ ids ((snap.backend kind).index "liked") ∨
      id ∈ ids ((snap.backend kind).index "disliked") ∨
      snap.HasOutcome kind (· = "disliked") (fun d => ¬ cutoff ≤ d) (fun _ => True) id →
    snap.JudgedOneWay kind cutoff id
  outcome : ∀ id,
    snap.HasOutcome kind (· = "disliked") (fun d => ¬ cutoff ≤ d) (cutoff ≤ ·) id →
    snap.Tested kind cutoff id ∨ id ∈ ids ((snap.backend kind).index "disliked") ∨
      snap.HasSignal kind (· = "dislike") (fun d => ¬ cutoff ≤ d) id ∨
      snap.HasOutcome kind (· = "disliked") (fun d => ¬ cutoff ≤ d) (fun d => ¬ cutoff ≤ d) id

theorem Snapshot.AllLate.not_early (h : snap.AllLate kind cutoff id) :
    ¬ snap.HasAddition kind (fun d => ¬ cutoff ≤ d) id ∧
      (∀ sort, ¬ snap.HasSignal kind sort (fun d => ¬ cutoff ≤ d) id) ∧
      ∀ sort shown, ¬ snap.HasOutcome kind sort shown (fun d => ¬ cutoff ≤ d) id := by
  refine ⟨?_, fun sort => ?_, fun sort shown => ?_⟩
  · rintro ⟨x, hx, hid, a, ha, hnot⟩
    exact hnot (h.2 a (Or.inl ⟨x, hx, hid, a, ha, rfl⟩))
  · rintro ⟨r, hr, howner, hkind, hid, -, hnot⟩
    exact hnot (h.2 r.ts (Or.inr (Or.inl ⟨r, hr, howner, hkind, hid, trivial, rfl⟩)))
  · rintro ⟨l, hl, howner, hkind, hid, -, o, ho, hrec, -, hnot⟩
    exact hnot (h.2 o.ts
      (Or.inr (Or.inr ⟨l, hl, howner, hkind, hid, trivial, o, ho, hrec, trivial, rfl⟩)))

theorem Snapshot.HasOutcome.undated {sort shown dated : String → Prop}
    (h : snap.HasOutcome kind sort shown dated id) :
    snap.HasOutcome kind sort shown (fun _ => True) id := by
  obtain ⟨l, hl, howner, hkind, hid, hshown, o, ho, hrec, hsort, -⟩ := h
  exact ⟨l, hl, howner, hkind, hid, hshown, o, ho, hrec, hsort, trivial⟩

/-- **Where the lists can be cleaned, nothing of the future is in the household.** -/
theorem noFuture_of_cleanable (hspec : hh.Spec snap kind cutoff)
    (h : Cleanable snap kind cutoff) : NoFuture snap kind cutoff hh := by
  intro id hlate
  obtain ⟨haddition, hsignal, -⟩ := hlate.not_early
  refine ⟨fun hmem => ?_, fun hmem => ?_, fun hmem => ?_, fun hmem => ?_⟩
  · exact haddition ((hspec.library id).mp hmem)
  · exact hsignal _ ((hspec.engaged id).mp hmem).1
  · obtain ⟨hlist, htested⟩ := (hspec.liked id).mp hmem
    exact htested ⟨h.listed id hlate (Or.inl hlist), haddition⟩
  · obtain ⟨hlist | hearly | hearly, htested⟩ := (hspec.disliked id).mp hmem
    · exact htested ⟨h.listed id hlate (Or.inr (Or.inl hlist)), haddition⟩
    · exact hsignal _ hearly
    · exact htested ⟨h.listed id hlate (Or.inr (Or.inr hearly)), haddition⟩

theorem earlyNeg_cut : (snap.cut cutoff).EarlyNeg kind cutoff id ↔
    snap.HasSignal kind (· = "dislike") (fun d => ¬ cutoff ≤ d) id ∨
      snap.HasOutcome kind (· = "disliked") (fun d => ¬ cutoff ≤ d)
        (fun d => ¬ cutoff ≤ d) id := by
  rw [Snapshot.EarlyNeg, hasSignal_cut, hasOutcome_cut]
  simp only [and_self, true_and]

/-- **The records from the cutoff on only take titles away**, but for late outcomes of early
recommendations. -/
theorem within_iff (hspec : hh.Spec snap kind cutoff) {hc : Household}
    (hcspec : hc.Spec (snap.cut cutoff) kind cutoff) (hlibrary : hh.library = hc.library) :
    hh.Within hc ↔ ∀ id, id ∈ hh.disliked →
      id ∈ ids ((snap.backend kind).index "disliked") ∨
        snap.HasSignal kind (· = "dislike") (fun d => ¬ cutoff ≤ d) id ∨
        snap.HasOutcome kind (· = "disliked") (fun d => ¬ cutoff ≤ d)
          (fun d => ¬ cutoff ≤ d) id := by
  have hdisliked : ∀ id, id ∈ hc.disliked ↔ id ∈ ids ((snap.backend kind).index "disliked") ∨
      snap.HasSignal kind (· = "dislike") (fun d => ¬ cutoff ≤ d) id ∨
      snap.HasOutcome kind (· = "disliked") (fun d => ¬ cutoff ≤ d) (fun d => ¬ cutoff ≤ d) id := by
    intro id
    rw [hcspec.disliked, earlyNeg_cut]
    exact and_iff_left not_tested_cut
  constructor
  · exact fun hwithin id hmem => (hdisliked id).mp (hwithin.disliked hmem)
  · intro hsub
    refine ⟨hlibrary, fun id hmem => ?_, fun id hmem => ?_, fun id hmem => ?_, fun id hmem => ?_⟩
    · refine (hcspec.engaged id).mpr ⟨hasSignal_cut.mpr ?_, not_tested_cut⟩
      simpa only [and_self] using ((hspec.engaged id).mp hmem).1
    · exact (hcspec.liked id).mpr ⟨((hspec.liked id).mp hmem).1, not_tested_cut⟩
    · exact (hdisliked id).mpr (hsub id hmem)
    · exact (hcspec.rejected id).mpr ⟨((hspec.rejected id).mp hmem).1, not_tested_cut⟩

/-- **The eval is blind exactly when the lists can be cleaned.** -/
theorem blind_iff (h : household snap kind cutoff = .ok hh) :
    Blind snap kind cutoff hh ↔ Cleanable snap kind cutoff := by
  have hspec := household_spec h
  obtain ⟨hc, hcut, hlibrary⟩ := household_cut h
  have hwithin := within_iff hspec (household_spec hcut) hlibrary.symm
  constructor
  · rintro ⟨hnone, hall⟩
    refine ⟨fun id hlate hlist => ?_, fun id hlate => ?_⟩
    · -- a title of the future that is not judged one way stays where it is listed
      by_contra honeway
      have htested : ¬ snap.Tested kind cutoff id := fun ht => honeway ht.1
      obtain ⟨-, -, hliked, hdisliked⟩ := hnone id hlate
      rcases hlist with hlist | hlist | hlist
      · exact hliked ((hspec.liked id).mpr ⟨hlist, htested⟩)
      · exact hdisliked ((hspec.disliked id).mpr ⟨Or.inl hlist, htested⟩)
      · exact hdisliked ((hspec.disliked id).mpr ⟨Or.inr (Or.inr hlist), htested⟩)
    · by_cases htested : snap.Tested kind cutoff id
      · exact Or.inl htested
      · have hmem : id ∈ hh.disliked :=
          (hspec.disliked id).mpr ⟨Or.inr (Or.inr hlate.undated), htested⟩
        exact Or.inr (hwithin.mp (hall hc hcut) id hmem)
  · intro hclean
    refine ⟨noFuture_of_cleanable hspec hclean, fun hc' hcut' => ?_⟩
    obtain rfl := Except.ok.inj (hcut.symm.trans hcut')
    refine hwithin.mpr fun id hmem => ?_
    obtain ⟨hlist | hearly | hearly, htested⟩ := (hspec.disliked id).mp hmem
    · exact Or.inl hlist
    · exact Or.inr (Or.inl hearly)
    · -- the outcome is from before, or it is from after and the title is known without it
      obtain ⟨l, hl, howner, hkind, hid, hshown, o, ho, hrec, hsort, -⟩ := hearly
      by_cases hlate : cutoff ≤ o.ts
      · have houtcome := hclean.outcome id
          ⟨l, hl, howner, hkind, hid, hshown, o, ho, hrec, hsort, hlate⟩
        exact houtcome.resolve_left htested
      · exact Or.inr (Or.inr
          ⟨l, hl, howner, hkind, hid, hshown, o, ho, hrec, hsort, hlate⟩)

/-! ### A film that is on the list of likes -/

/-- A snapshot whose owner has a film on the list of likes, and one dated signal on it. -/
def filmOf (signal : String) : Snapshot where
  owner := "plex:1"
  library := fun _ => .null
  userFeedback :=
    .obj [("plex:1", .obj [("movie", .obj [("liked", .arr [.obj [("id", .int 603)]])])])]
  rejections := .null
  feedbackRows := [⟨"plex:1", .movie, 603, signal, "2026-07-15T20:00:00.000000+00:00"⟩]
  recLog := []
  recOutcomes := []

/-- The film was clicked after the cutoff: it is tested on, and leaves the list. -/
theorem blind_iff_click : ∃ hh, household (filmOf "clicked") .movie "2026-07-01" = .ok hh ∧
    603 ∈ hh.testPos ∧ Blind (filmOf "clicked") .movie "2026-07-01" hh := by
  obtain ⟨hh, h, htest⟩ : ∃ hh, household (filmOf "clicked") .movie "2026-07-01" = .ok hh ∧
      603 ∈ hh.testPos := ⟨_, rfl, by decide⟩
  refine ⟨hh, h, htest, (blind_iff h).mpr ⟨fun id _ hlist => ?_, ?_⟩⟩
  · have hid : id = 603 := by
      rcases hlist with hlist | hlist | ⟨l, ⟨⟩, -⟩
      · simpa using (show id ∈ ({603} : Finset ℤ) from hlist)
      · exact absurd (show id ∈ (∅ : Finset ℤ) from hlist) (Finset.notMem_empty id)
    subst hid
    refine Or.inl ⟨Or.inl ⟨_, List.mem_singleton.mpr rfl, rfl, rfl, rfl, by decide, by decide⟩, ?_⟩
    rintro (⟨r, hr, -, -, -, hsort, -⟩ | ⟨l, ⟨⟩, -⟩)
    obtain rfl := List.mem_singleton.mp hr
    exact absurd hsort (by decide)
  · rintro id ⟨l, ⟨⟩, -⟩

/-- The film was liked after the cutoff: it stays on the list. -/
theorem not_blind_like : ¬ ∀ snap kind cutoff hh, household snap kind cutoff = .ok hh →
    Blind snap kind cutoff hh := by
  intro hall
  obtain ⟨hh, h, hliked⟩ : ∃ hh, household (filmOf "like") .movie "2026-07-01" = .ok hh ∧
      603 ∈ hh.liked := ⟨_, rfl, by decide⟩
  have hlate : (filmOf "like").AllLate .movie "2026-07-01" 603 := by
    refine ⟨⟨_, Or.inr (Or.inl ⟨_, List.mem_singleton.mpr rfl, rfl, rfl, rfl, trivial, rfl⟩)⟩, ?_⟩
    rintro d (⟨x, ⟨⟩, -⟩ | ⟨r, hr, -, -, -, -, rfl⟩ | ⟨l, ⟨⟩, -⟩)
    obtain rfl := List.mem_singleton.mp hr
    decide
  exact ((hall _ _ _ hh h).1 603 hlate).2.2.1 hliked

end EmeraldExchange.Recommender.ReplayEval
