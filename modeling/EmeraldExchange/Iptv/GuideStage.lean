import Mathlib.Data.Finset.Empty
import Mathlib.Data.Finset.Insert
import Mathlib.Data.String.Basic
import EmeraldExchange.Iptv.Xmltv
import EmeraldExchange.Lib.Table

/-!
# The commit of a guide feed

`Stage` in `crates/iptv/src/epg.rs`: the programmes of a feed are staged in a temporary table, and
one transaction replaces with them the schedule of every channel that the feed delivers, from the
first delivered start on. Filler is not stored, but counts as a start.

The transaction deletes by the stop of a row and inserts by its start. A stored row that stops no
later than it starts may be kept by the one and be in the way of the other, and then nothing is
committed. Such a row is the only obstacle (`guideCommit_iff`).

Times are texts that are compared as such.
-/

namespace EmeraldExchange.Iptv

/-! ### Filler -/

/-- `PLACEHOLDER_TITLES` -/
def placeholderTitles : List String :=
  ["no match today", "sign off", "signing off", "to be announced", "movie to be announced", "tba",
    "tbd", "channel off air", "off air", "no data", "no event today",
    "channel no longer available", "programming will resume shortly", "end of transmission"]

/-- `[a-z0-9]` -/
def isFolded (c : Char) : Bool := ('a' ≤ c && c ≤ 'z') || ('0' ≤ c && c ≤ '9')

/-- Each run of other characters as one blank; `prev` tells whether one has begun. -/
def fold : Bool → List Char → List Char
  | _, [] => []
  | prev, c :: s =>
    if isFolded c then c :: fold false s
    else if prev then fold true s else ' ' :: fold true s

/-- A title that stands for no programme, whatever its case and punctuation. -/
def isPlaceholderTitle (v : Values) (title : Option String) : Bool :=
  title.any fun t =>
    let folded := fold false (v.toLowercase t).toList
    String.ofList ((folded.dropWhile (· = ' ')).reverse.dropWhile (· = ' ')).reverse ∈
      placeholderTitles

/-! ### The tables -/

/-- A row of `epg_programs`, besides its channel and its start. -/
structure Airing where
  stopUtc : String
  title : Option String
  description : Option String
  derived : Bool
  deriving DecidableEq

/-- **`epg_programs`**: its key is the channel and the start. -/
abbrev Guide := Table (String × String) Airing

def Programme.airing (row : Programme) : Airing := ⟨row.stopUtc, row.title, row.description, false⟩

def Programme.key (row : Programme) : String × String := (row.channelId, row.startUtc)

/-- `STAGE_BATCH` -/
def stageBatch : ℕ := 1000

/-- **A stage**: the temporary table, and what has not been written to it. -/
structure Stage where
  firstStart : Table String String
  ids : Finset String
  placeholders : ℕ
  batch : List Programme
  staged : Guide

structure Staged where
  ids : Finset String
  replaced : ℕ
  placeholders : ℕ

namespace Stage

def new : Stage := ⟨∅, ∅, 0, [], ∅⟩

/-- Write the batch: `INSERT OR REPLACE`. -/
def flush (st : Stage) : Stage :=
  { st with
    staged := st.batch.foldl (fun t row => t.insert row.key row.airing) st.staged
    batch := [] }

def moveFirst (st : Stage) (row : Programme) : Stage :=
  match st.firstStart.lookup row.channelId with
  | some first =>
    if first ≤ row.startUtc then st
    else { st with firstStart := st.firstStart.insert row.channelId row.startUtc }
  | none => { st with firstStart := st.firstStart.insert row.channelId row.startUtc }

def add (v : Values) (st : Stage) (row : Programme) : Stage × Bool :=
  let st := st.moveFirst row
  if isPlaceholderTitle v row.title then ({ st with placeholders := st.placeholders + 1 }, false)
  else
    let st := { st with ids := insert row.channelId st.ids, batch := st.batch ++ [row] }
    (if stageBatch ≤ st.batch.length then st.flush else st, true)

/-- The rows that the transaction keeps: those that stop by the first delivered start. -/
def keeps (st : Stage) (key : String × String) (row : Airing) : Bool :=
  (st.firstStart.lookup key.1).all (row.stopUtc ≤ ·)

/-- **The transaction**: delete, then insert. It fails where a key is taken. -/
def commit (st : Stage) (guide : Guide) : Option (Guide × Staged) :=
  let st := st.flush
  ((guide.retainRows st.keeps).insertNew st.staged).map fun guide =>
    (guide, ⟨st.ids, st.firstStart.size, st.placeholders⟩)

end Stage

/-! ### The provider's feed -/

/-- What the feed answers next. The wait for it may be cancelled, too, and the writes to the
temporary table may fail; both are a failure for what follows. -/
inductive Delivery
  | batch (b : Batch)
  | failed (error : String)

structure Window where
  cutoff : String
  horizon : String
  deriving DecidableEq

def Window.admits (w : Window) (row : Programme) : Bool :=
  !(row.stopUtc < w.cutoff || w.horizon < row.stopUtc)

/-- Stage the programmes that pass a test, and count those to store. -/
def stageRows (v : Values) (p : Programme → Bool) : List Programme → Stage × ℕ → Stage × ℕ
  | [], s => s
  | row :: rows, (st, stored) =>
    if p row then
      let (st, more) := st.add v row
      stageRows v p rows (st, if more then stored + 1 else stored)
    else stageRows v p rows (st, stored)

structure Ingest where
  stage : Stage
  defs : List ChannelDef
  stored : ℕ

/-- **The loop of `ingest_provider`.** -/
def receive (v : Values) (w : Window) : Ingest → List Delivery → Except String Ingest
  | acc, [] => .ok acc
  | _, .failed e :: _ => .error e
  | acc, .batch b :: rest =>
    let (stage, stored) := stageRows v w.admits b.programmes (acc.stage, acc.stored)
    receive v w ⟨stage, acc.defs ++ b.channels, stored⟩ rest

/-- `db_err` -/
def dbErr (e : String) : String := "db: " ++ e

def keyTaken : String :=
  dbErr "UNIQUE constraint failed: epg_programs.channel_id, epg_programs.start_utc"

/-- **`ingest_provider`**: the stored programmes that are left, and what it returns. -/
def ingestProvider (v : Values) (w : Window) (feed : List Delivery) (guide : Guide) :
    Guide × Except String (Staged × List ChannelDef × ℕ) :=
  match receive v w ⟨.new, [], 0⟩ feed with
  | .error e => (guide, .error e)
  | .ok acc =>
    match acc.stage.commit guide with
    | some (guide, staged) => (guide, .ok (staged, acc.defs, acc.stored))
    | none => (guide, .error keyTaken)

/-! ### What a feed delivers -/

/-- The first start of a channel, filler or not. -/
def earliest (rows : List Programme) (id : String) : Option String :=
  ((rows.filter (·.channelId = id)).map (·.startUtc)).min?

theorem earliest_eq_some {rows : List Programme} {id first : String} :
    earliest rows id = some first ↔
      (∃ row ∈ rows, row.channelId = id ∧ row.startUtc = first) ∧
        ∀ row ∈ rows, row.channelId = id → first ≤ row.startUtc := by
  rw [earliest, List.min?_eq_some_iff, List.forall_mem_map]
  simp only [List.mem_map, List.mem_filter, decide_eq_true_eq, and_imp, and_assoc]

theorem earliest_eq_none {rows : List Programme} {id : String} :
    earliest rows id = none ↔ ∀ row ∈ rows, row.channelId ≠ id := by
  rw [earliest, List.min?_eq_none_iff, List.map_eq_nil_iff, List.filter_eq_nil_iff]
  simp only [decide_eq_true_eq, ne_eq]

theorem earliest_concat (rows : List Programme) (row : Programme) (id : String) :
    earliest (rows ++ [row]) id =
      if row.channelId = id then
        some ((earliest rows id).elim row.startUtc fun first =>
          if first ≤ row.startUtc then first else row.startUtc)
      else earliest rows id := by
  by_cases hid : row.channelId = id
  · rw [if_pos hid, earliest_eq_some]
    cases hfirst : earliest rows id with
    | none =>
      refine ⟨⟨row, by simp, hid, rfl⟩, fun r hr hr' => ?_⟩
      rcases List.mem_append.mp hr with hr | hr
      · exact absurd hr' (earliest_eq_none.mp hfirst r hr)
      · rw [List.mem_singleton.mp hr]
        rfl
    | some first =>
      obtain ⟨⟨r₀, hr₀, hid₀, hstart⟩, hle⟩ := earliest_eq_some.mp hfirst
      simp only [Option.elim_some]
      by_cases hbefore : first ≤ row.startUtc
      · rw [if_pos hbefore]
        refine ⟨⟨r₀, by simp [hr₀], hid₀, hstart⟩, fun r hr hr' => ?_⟩
        rcases List.mem_append.mp hr with hr | hr
        · exact hle r hr hr'
        · rwa [List.mem_singleton.mp hr]
      · rw [if_neg hbefore]
        refine ⟨⟨row, by simp, hid, rfl⟩, fun r hr hr' => ?_⟩
        rcases List.mem_append.mp hr with hr | hr
        · exact (not_le.mp hbefore).le.trans (hle r hr hr')
        · rw [List.mem_singleton.mp hr]
  · rw [if_neg hid, earliest, List.filter_append, List.filter_cons_of_neg (by simpa using hid),
      List.filter_nil, List.append_nil]
    rfl

def Delivers (v : Values) (rows : List Programme) (id : String) : Prop :=
  ∃ row ∈ rows, row.channelId = id ∧ isPlaceholderTitle v row.title = false

/-- The last programme of a channel and a start, of those that are no filler. -/
def lastAt (v : Values) (rows : List Programme) (key : String × String) : Option Airing :=
  (rows.filter fun row => !isPlaceholderTitle v row.title && row.key = key).getLast?.map
    Programme.airing

theorem lastAt_concat (v : Values) (rows : List Programme) (row : Programme)
    (key : String × String) :
    lastAt v (rows ++ [row]) key =
      if isPlaceholderTitle v row.title = false ∧ row.key = key then some row.airing
      else lastAt v rows key := by
  rw [lastAt, List.filter_append, List.filter_singleton]
  by_cases h : isPlaceholderTitle v row.title = false ∧ row.key = key
  · simp [h.1, h.2]
  · have hdrop : (!isPlaceholderTitle v row.title && decide (row.key = key)) = false := by
      simpa using h
    rw [hdrop, if_neg h]
    simp [lastAt]

theorem exists_of_lastAt {v : Values} {rows : List Programme} {key : String × String} {a : Airing}
    (h : lastAt v rows key = some a) :
    ∃ row ∈ rows, isPlaceholderTitle v row.title = false ∧ row.key = key ∧ row.airing = a := by
  obtain ⟨row, hrow, rfl⟩ := Option.map_eq_some_iff.mp h
  have hmem := List.mem_of_getLast? hrow
  rw [List.mem_filter, Bool.and_eq_true, Bool.not_eq_true', decide_eq_true_eq] at hmem
  exact ⟨row, hmem.1, hmem.2.1, hmem.2.2, rfl⟩

theorem exists_lastAt {v : Values} {rows : List Programme} {id : String}
    (h : Delivers v rows id) : ∃ start a, lastAt v rows (id, start) = some a := by
  obtain ⟨row, hrow, rfl, htitle⟩ := h
  refine ⟨row.startUtc, ?_⟩
  rw [← Option.isSome_iff_exists, lastAt, Option.isSome_map, List.getLast?_isSome]
  refine List.ne_nil_of_mem (List.mem_filter.mpr ⟨hrow, ?_⟩)
  simp [htitle, Programme.key]

/-! ### The stage reflects its rows -/

/-- **What a stage knows of the rows it was given.** -/
structure Stage.Reflects (v : Values) (st : Stage) (rows : List Programme) : Prop where
  firstStart : ∀ id, st.firstStart.lookup id = earliest rows id
  ids : ∀ id, id ∈ st.ids ↔ Delivers v rows id
  staged : ∀ key, st.flush.staged.lookup key = lastAt v rows key

namespace Stage

variable {v : Values}

theorem reflects_new : Reflects v .new [] where
  firstStart _ := rfl
  ids id := by
    constructor
    · intro h
      cases h
    · rintro ⟨row, hrow, -⟩
      cases hrow
  staged _ := rfl

@[simp] theorem staged_flush_flush (st : Stage) : st.flush.flush.staged = st.flush.staged := rfl

theorem moveFirst_eq (st : Stage) (row : Programme) :
    ∃ firstStart, st.moveFirst row = { st with firstStart := firstStart } ∧
      ∀ id, firstStart.lookup id =
        if row.channelId = id then
          some ((st.firstStart.lookup id).elim row.startUtc fun first =>
            if first ≤ row.startUtc then first else row.startUtc)
        else st.firstStart.lookup id := by
  unfold moveFirst
  cases hfirst : st.firstStart.lookup row.channelId with
  | none =>
    refine ⟨_, rfl, fun id => ?_⟩
    by_cases hid : row.channelId = id
    · subst hid
      rw [AList.lookup_insert, if_pos rfl, hfirst]
      rfl
    · rw [AList.lookup_insert_ne (Ne.symm hid), if_neg hid]
  | some first =>
    by_cases hbefore : first ≤ row.startUtc
    · refine ⟨st.firstStart, if_pos hbefore, fun id => ?_⟩
      by_cases hid : row.channelId = id
      · subst hid
        rw [if_pos rfl, hfirst, Option.elim_some, if_pos hbefore]
      · rw [if_neg hid]
    · refine ⟨_, if_neg hbefore, fun id => ?_⟩
      by_cases hid : row.channelId = id
      · subst hid
        rw [AList.lookup_insert, if_pos rfl, hfirst, Option.elim_some, if_neg hbefore]
      · rw [AList.lookup_insert_ne (Ne.symm hid), if_neg hid]

/-- A row that is added joins the batch, and the batch is written to the same table, soon or
late. -/
theorem add_eq (v : Values) (st : Stage) (row : Programme) :
    (st.add v row).1.firstStart = (st.moveFirst row).firstStart ∧
      if isPlaceholderTitle v row.title = true then
        (st.add v row).1.ids = st.ids ∧ (st.add v row).1.flush.staged = st.flush.staged
      else
        (st.add v row).1.ids = insert row.channelId st.ids ∧
          (st.add v row).1.flush.staged = st.flush.staged.insert row.key row.airing := by
  obtain ⟨first, hmove, -⟩ := st.moveFirst_eq row
  simp only [add]
  rw [hmove]
  cases htitle : isPlaceholderTitle v row.title with
  | true => exact ⟨rfl, rfl, rfl⟩
  | false =>
    simp only [Bool.false_eq_true, if_false]
    split_ifs with hfull
    · refine ⟨rfl, rfl, ?_⟩
      rw [staged_flush_flush]
      simp only [flush, List.foldl_append, List.foldl_cons, List.foldl_nil]
    · refine ⟨rfl, rfl, ?_⟩
      simp only [flush, List.foldl_append, List.foldl_cons, List.foldl_nil]

/-- **A row that is added is reflected.** -/
theorem Reflects.add {st : Stage} {rows : List Programme} (h : Reflects v st rows)
    (row : Programme) : Reflects v (st.add v row).1 (rows ++ [row]) := by
  obtain ⟨hfirst, hrest⟩ := add_eq v st row
  obtain ⟨first, hmove, hlookup⟩ := st.moveFirst_eq row
  constructor
  · intro id
    rw [hfirst, hmove, hlookup, earliest_concat, h.firstStart]
  · intro id
    rw [Delivers]
    simp only [List.mem_append, List.mem_singleton, or_and_right, exists_or, exists_eq_left]
    cases htitle : isPlaceholderTitle v row.title with
    | true =>
      rw [if_pos htitle] at hrest
      rw [hrest.1, h.ids]
      simp [Delivers]
    | false =>
      rw [if_neg (by simp [htitle])] at hrest
      rw [hrest.1, Finset.mem_insert, h.ids, or_comm, eq_comm]
      simp [Delivers]
  · intro key
    rw [lastAt_concat]
    cases htitle : isPlaceholderTitle v row.title with
    | true =>
      rw [if_pos htitle] at hrest
      rw [hrest.2, h.staged, if_neg (by simp)]
    | false =>
      rw [if_neg (by simp [htitle])] at hrest
      rw [hrest.2]
      by_cases hkey : row.key = key
      · rw [if_pos ⟨rfl, hkey⟩, ← hkey, AList.lookup_insert]
      · rw [if_neg (by simp [hkey]), AList.lookup_insert_ne (Ne.symm hkey), h.staged]

theorem Reflects.stageRows {p : Programme → Bool} {st : Stage} {rows : List Programme}
    (h : Reflects v st rows) (more : List Programme) (stored : ℕ) :
    Reflects v (stageRows v p more (st, stored)).1 (rows ++ more.filter p) := by
  induction more generalizing st rows stored with
  | nil => simpa [Iptv.stageRows] using h
  | cons row more ih =>
    rw [Iptv.stageRows]
    by_cases hp : p row = true
    · rw [if_pos hp, List.filter_cons_of_pos hp]
      simpa using ih (h.add row) _
    · rw [if_neg hp, List.filter_cons_of_neg hp]
      exact ih h stored

/-! ### The transaction -/

/-- **A commit goes through if no row that is kept is in the way.** -/
theorem Reflects.isSome_commit {st : Stage} {rows : List Programme} (h : Reflects v st rows)
    (guide : Guide) : (st.commit guide).isSome = true ↔
      ∀ key, (lastAt v rows key).isSome = true → ∀ a, guide.lookup key = some a →
        st.keeps key a = false := by
  rw [commit, Option.isSome_map, Table.isSome_insertNew]
  refine forall_congr' fun key => ?_
  rw [h.staged, Table.lookup_retainRows, Option.filter_eq_none_iff]
  simp only [Bool.not_eq_true]
  rfl

/-- **What is stored after it.** -/
theorem Reflects.lookup_commit {st : Stage} {rows : List Programme} (h : Reflects v st rows)
    {guide guide' : Guide} {staged : Staged} (hcommit : st.commit guide = some (guide', staged))
    (key : String × String) :
    guide'.lookup key = (lastAt v rows key).or ((guide.lookup key).filter (st.keeps key)) := by
  obtain ⟨u, hu, heq⟩ := Option.map_eq_some_iff.mp hcommit
  obtain ⟨rfl, -⟩ := Prod.mk.inj heq
  rw [Table.lookup_of_insertNew hu, h.staged, Table.lookup_retainRows]
  rfl

theorem Reflects.ids_commit {st : Stage} {rows : List Programme} (h : Reflects v st rows)
    {guide guide' : Guide} {staged : Staged} (hcommit : st.commit guide = some (guide', staged))
    (id : String) : id ∈ staged.ids ↔ Delivers v rows id := by
  obtain ⟨u, -, heq⟩ := Option.map_eq_some_iff.mp hcommit
  obtain ⟨-, rfl⟩ := Prod.mk.inj heq
  exact h.ids id

end Stage

/-! ### The commit of a feed -/

def delivered (w : Window) (batches : List Batch) : List Programme :=
  (batches.flatMap (·.programmes)).filter w.admits

theorem reflects_receive {v : Values} (w : Window) (acc : Ingest) {rows : List Programme}
    (h : acc.stage.Reflects v rows) (batches : List Batch) :
    ∃ acc', receive v w acc (batches.map .batch) = .ok acc' ∧
      acc'.stage.Reflects v (rows ++ delivered w batches) := by
  induction batches generalizing acc rows with
  | nil => exact ⟨acc, rfl, by simpa [delivered] using h⟩
  | cons b batches ih =>
    have hstage := h.stageRows (p := w.admits) b.programmes acc.stored
    obtain ⟨acc', hacc', hreflects⟩ := ih ⟨_, acc.defs ++ b.channels, _⟩ hstage
    refine ⟨acc', hacc', ?_⟩
    simpa [delivered] using hreflects

/-- **The schedules are replaced from the first delivered starts on**, and the others are left
alone. -/
structure Replaces (v : Values) (rows : List Programme) (guide guide' : Guide) : Prop where
  delivered : ∀ id first, earliest rows id = some first → ∀ start a,
    guide'.lookup (id, start) = some a ↔
      guide.lookup (id, start) = some a ∧ a.stopUtc ≤ first ∨ lastAt v rows (id, start) = some a
  others : ∀ id, (∀ row ∈ rows, row.channelId ≠ id) → ∀ start,
    guide'.lookup (id, start) = guide.lookup (id, start)

/-- No two programmes of a schedule run at one time. -/
def NoOverlap (schedule : String → Option Airing) : Prop :=
  ∀ start start' a a', schedule start = some a → schedule start' = some a' → start ≠ start' →
    ¬(start < a'.stopUtc ∧ start' < a.stopUtc)

/-- **The commit of a feed.** -/
structure GuideCommit (v : Values) (w : Window) (batches : List Batch) (guide : Guide) : Prop where
  /-- A feed that fails, wherever it does, changes nothing. -/
  failed : ∀ front e rest, front <+: batches →
    (ingestProvider v w (front.map .batch ++ .failed e :: rest) guide).1 = guide
  /-- One that is delivered in full is committed. -/
  committed : ∃ r, (ingestProvider v w (batches.map .batch) guide).2 = .ok r
  replaces : Replaces v (delivered w batches) guide
    (ingestProvider v w (batches.map .batch) guide).1
  noOverlap : ∀ id, NoOverlap (fun start => guide.lookup (id, start)) →
    NoOverlap (fun start => lastAt v (delivered w batches) (id, start)) →
    NoOverlap fun start => (ingestProvider v w (batches.map .batch) guide).1.lookup (id, start)

/-- No stored row that stops by the first delivered start of its channel starts with a delivered
programme. -/
def Clear (v : Values) (rows : List Programme) (guide : Guide) : Prop :=
  ∀ id first, earliest rows id = some first → ∀ start a, guide.lookup (id, start) = some a →
    a.stopUtc ≤ first → lastAt v rows (id, start) = none

theorem earliest_le_of_lastAt {v : Values} {rows : List Programme} {id start : String} {a : Airing}
    (h : lastAt v rows (id, start) = some a) :
    ∃ first, earliest rows id = some first ∧ first ≤ start := by
  obtain ⟨row, hrow, -, hkey, -⟩ := exists_of_lastAt h
  obtain ⟨hid, hstart⟩ := Prod.mk.inj hkey
  cases hfirst : earliest rows id with
  | none => exact absurd hid (earliest_eq_none.mp hfirst row hrow)
  | some first => exact ⟨first, rfl, hstart ▸ (earliest_eq_some.mp hfirst).2 row hrow hid⟩

namespace Stage

variable {v : Values} {st : Stage} {rows : List Programme}

theorem Reflects.keeps_iff (h : Reflects v st rows) (key : String × String) (a : Airing) :
    st.keeps key a = true ↔ ∀ first, earliest rows key.1 = some first → a.stopUtc ≤ first := by
  rw [keeps, h.firstStart]
  cases earliest rows key.1 <;> simp

/-- **A commit goes through if and only if the stored rows are clear of it.** -/
theorem Reflects.commit_iff (h : Reflects v st rows) (guide : Guide) :
    (st.commit guide).isSome = true ↔ Clear v rows guide := by
  rw [h.isSome_commit]
  constructor
  · rintro hfree id first hfirst start a ha hstop
    by_contra hne
    have hkept := hfree (id, start) (Option.isSome_iff_ne_none.mpr hne) a ha
    rw [Bool.eq_false_iff, ne_eq, h.keeps_iff] at hkept
    refine hkept fun first' hfirst' => ?_
    rwa [Option.some.inj (hfirst'.symm.trans hfirst)]
  · rintro hclear ⟨id, start⟩ hlast a ha
    obtain ⟨b, hb⟩ := Option.isSome_iff_exists.mp hlast
    obtain ⟨first, hfirst, -⟩ := earliest_le_of_lastAt hb
    rw [Bool.eq_false_iff, ne_eq, h.keeps_iff]
    intro hkept
    rw [hclear id first hfirst start a ha (hkept first hfirst)] at hb
    cases hb

/-- **What a commit leaves.** -/
theorem Reflects.replaces (h : Reflects v st rows) {guide guide' : Guide} {staged : Staged}
    (hcommit : st.commit guide = some (guide', staged)) : Replaces v rows guide guide' := by
  have hclear := (h.commit_iff guide).mp (Option.isSome_iff_exists.mpr ⟨_, hcommit⟩)
  constructor
  · intro id first hfirst start a
    have hkept : ∀ b, (guide.lookup (id, start)).filter (st.keeps (id, start)) = some b ↔
        guide.lookup (id, start) = some b ∧ b.stopUtc ≤ first := by
      intro b
      rw [Option.filter_eq_some_iff, h.keeps_iff]
      refine and_congr_right fun _ => ⟨fun hle => hle first hfirst, fun hle first' hfirst' => ?_⟩
      rwa [Option.some.inj (hfirst'.symm.trans hfirst)]
    rw [h.lookup_commit hcommit, Option.or_eq_some_iff, hkept]
    constructor
    · rintro (hlast | ⟨-, hrow⟩)
      · exact .inr hlast
      · exact .inl hrow
    · rintro (hrow | hlast)
      · exact .inr ⟨hclear id first hfirst start a hrow.1 hrow.2, hrow⟩
      · exact .inl hlast
  · intro id hid start
    have hnone : lastAt v rows (id, start) = none := by
      by_contra hne
      obtain ⟨b, hb⟩ := Option.ne_none_iff_exists'.mp hne
      obtain ⟨row, hrow, -, hkey, -⟩ := exists_of_lastAt hb
      exact hid row hrow (Prod.mk.inj hkey).1
    rw [h.lookup_commit hcommit, hnone, Option.none_or]
    cases ha : guide.lookup (id, start) with
    | none => rfl
    | some a =>
      refine Option.filter_eq_some_iff.mpr ⟨rfl, (h.keeps_iff _ _).mpr ?_⟩
      rw [earliest_eq_none.mpr hid]
      rintro first ⟨⟩

end Stage

/-- **Schedules that do not overlap are replaced by one that does not.** -/
theorem Replaces.noOverlap {v : Values} {rows : List Programme} {guide guide' : Guide}
    (h : Replaces v rows guide guide') {id : String}
    (hold : NoOverlap fun start => guide.lookup (id, start))
    (hnew : NoOverlap fun start => lastAt v rows (id, start)) :
    NoOverlap fun start => guide'.lookup (id, start) := by
  cases hfirst : earliest rows id with
  | none =>
    rintro start start' a a' ha ha'
    have hsame := h.others id (earliest_eq_none.mp hfirst)
    exact hold start start' a a' ((hsame start).symm.trans ha) ((hsame start').symm.trans ha')
  | some first =>
    -- a row that is kept stops before any that is delivered starts
    have hbefore : ∀ {start b}, lastAt v rows (id, start) = some b → first ≤ start := by
      rintro start b hb
      obtain ⟨first', hfirst', hle⟩ := earliest_le_of_lastAt hb
      rwa [Option.some.inj (hfirst.symm.trans hfirst')]
    rintro start start' a a' ha ha' hne ⟨hlt, hlt'⟩
    rcases (h.delivered id first hfirst start a).mp ha with ⟨ha, hstop⟩ | ha
    · rcases (h.delivered id first hfirst start' a').mp ha' with ⟨ha', hstop'⟩ | ha'
      · exact hold start start' a a' ha ha' hne ⟨hlt, hlt'⟩
      · exact absurd (hlt'.trans_le (hstop.trans (hbefore ha'))) (lt_irrefl _)
    · rcases (h.delivered id first hfirst start' a').mp ha' with ⟨ha', hstop'⟩ | ha'
      · exact absurd (hlt.trans_le (hstop'.trans (hbefore ha))) (lt_irrefl _)
      · exact hnew start start' a a' ha ha' hne ⟨hlt, hlt'⟩

theorem receive_failed (v : Values) (w : Window) (acc : Ingest) (front : List Batch) (e : String)
    (rest : List Delivery) :
    receive v w acc (front.map .batch ++ .failed e :: rest) = .error e := by
  induction front generalizing acc with
  | nil => rfl
  | cons b front ih => exact ih _

/-- **The guide commit holds of a table and a feed if and only if the table is clear of the
feed**: no stored row that stops by the first delivered start of its channel starts with a delivered
programme. -/
theorem guideCommit_iff (v : Values) (w : Window) (batches : List Batch) (guide : Guide) :
    GuideCommit v w batches guide ↔ Clear v (delivered w batches) guide := by
  obtain ⟨acc, hacc, hreflects⟩ := reflects_receive w ⟨.new, [], 0⟩
    (Stage.reflects_new (v := v)) batches
  rw [List.nil_append] at hreflects
  have hcommit := hreflects.commit_iff guide
  constructor
  · rintro ⟨-, ⟨r, hr⟩, -, -⟩
    rw [← hcommit]
    simp only [ingestProvider, hacc] at hr
    cases h : acc.stage.commit guide with
    | none =>
      rw [h] at hr
      cases hr
    | some p => rfl
  · intro hclear
    obtain ⟨⟨guide', staged⟩, h⟩ := Option.isSome_iff_exists.mp (hcommit.mpr hclear)
    have hingest : ingestProvider v w (batches.map .batch) guide =
        (guide', .ok (staged, acc.defs, acc.stored)) := by
      simp only [ingestProvider, hacc, h]
    have hreplaces := hreflects.replaces h
    refine ⟨?_, ⟨_, congrArg Prod.snd hingest⟩, ?_, ?_⟩
    · rintro front e rest -
      simp only [ingestProvider, receive_failed]
    · rwa [hingest]
    · rintro id hold hnew
      rw [hingest]
      exact hreplaces.noOverlap hold hnew

theorem replaces_of_ingestProvider {v : Values} {w : Window} {batches : List Batch}
    {guide guide' : Guide} {staged : Staged} {defs : List ChannelDef} {stored : ℕ}
    (h : ingestProvider v w (batches.map .batch) guide = (guide', .ok (staged, defs, stored))) :
    Replaces v (delivered w batches) guide guide' ∧
      ∀ id, id ∈ staged.ids ↔ Delivers v (delivered w batches) id := by
  obtain ⟨acc, hacc, hreflects⟩ := reflects_receive w ⟨.new, [], 0⟩
    (Stage.reflects_new (v := v)) batches
  rw [List.nil_append] at hreflects
  simp only [ingestProvider, hacc] at h
  cases hcommit : acc.stage.commit guide with
  | none =>
    rw [hcommit] at h
    cases (Prod.mk.inj h).2
  | some p =>
    obtain ⟨guide₁, staged₁⟩ := p
    rw [hcommit] at h
    obtain ⟨rfl, heq⟩ := Prod.mk.inj h
    obtain ⟨rfl, -⟩ := Prod.mk.inj (Except.ok.inj heq)
    exact ⟨hreflects.replaces hcommit, hreflects.ids_commit hcommit⟩

/-! ### A programme without a length -/

/-- One that starts and stops at four o'clock. -/
def instantProgramme : Programme :=
  ⟨"x.us", "2026-10-15T04:00:00.000Z", "2026-10-15T04:00:00.000Z", some "Station ident", none⟩

def instantGuide : Guide := (∅ : Guide).insert instantProgramme.key instantProgramme.airing

def twoDays : Window := ⟨"2026-10-14T03:20:00.000Z", "2026-10-22T03:20:00.000Z"⟩

/-- **Delivered again, it is in its own way.** -/
theorem not_guideCommit_instant :
    ¬GuideCommit plainValues twoDays [⟨[instantProgramme], []⟩] instantGuide := by
  rintro ⟨-, ⟨r, hr⟩, -, -⟩
  have hfails : (ingestProvider plainValues twoDays [.batch ⟨[instantProgramme], []⟩]
      instantGuide).2 = .error keyTaken := by
    rfl
  cases hfails.symm.trans hr

end EmeraldExchange.Iptv
