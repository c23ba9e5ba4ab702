import EmeraldExchange.Lib.Traced
import EmeraldExchange.Recommender.Hydrate
import EmeraldExchange.Recommender.Payload

/-!
# The changes since

`changes_since` of `crates/recommender/src/ingest.rs` asks what has changed since the day that the
cursor names, in windows of at most fourteen days, page by page, and queues every title that is
listed. When the pages of a window are through, its last day is the cursor, and the next window
begins on it. A run may fail at any request and at any statement, and be cut off at any moment; the
next one begins where the cursor is.

So no day is skipped from the day on where the first run began that stored the cursor
(`covered_of_mem`,
`inv_of_reached`). A run that fails before leaves no trace:
where there is no cursor, or none that is a day, the next run begins two days back from its own day
(`cursor_skips_days`).

A run is known by the record of what it does. How a day is written and read is the calendar's, and
what the service answers is given.
-/

namespace EmeraldExchange.Recommender.Changes

open Payload (Invalid listOrEmpty object pyInt truthy)

/-! ### Days -/

/-- **The calendar**: the first and the last day that there is, and how a day is written and read.
A day is its number. -/
structure Calendar where
  first : ℤ
  last : ℤ
  text : ℤ → String
  parse : String → Option ℤ

def Calendar.Has (cal : Calendar) (d : ℤ) : Prop := cal.first ≤ d ∧ d ≤ cal.last

instance Calendar.decidableHas (cal : Calendar) (d : ℤ) : Decidable (cal.Has d) :=
  inferInstanceAs (Decidable (_ ∧ _))

/-- **A day is read as it was written**, and what is read is a day. -/
structure Calendar.Lawful (cal : Calendar) : Prop where
  parse_text : ∀ d, cal.Has d → cal.parse (cal.text d) = some d
  has_of_parse : ∀ s d, cal.parse s = some d → cal.Has d

/-! ### A run -/

inductive Failure
  /-- There is no such day. -/
  | panic
  | database
  | request
  | invalid (e : Invalid)
  /-- The loop has not come to its end. -/
  | unfinished

/-- What a run does: it asks for a page, queues a title that the page lists, and stores the last day
of a window. -/
inductive Event
  | asked (start stop page : ℤ)
  | queued (start stop page tmdbId : ℤ)
  | saved (stop : ℤ)
  deriving DecidableEq

/-- **A run**: its day, what the service answers, and which statements succeed. -/
structure Run where
  today : ℤ
  cursorRead : Bool
  /-- `TmdbClient::changes`, by start, end and page. -/
  changes : String → String → ℤ → Option JsonTree
  /-- By window, page and row. -/
  inserts : ℤ → ℤ → ℕ → Bool
  /-- By window. -/
  saves : ℤ → Bool

abbrev Job := Traced Failure Event

def valid {α : Type} (r : Except Invalid α) : Job α := .ofExcept (r.mapError .invalid)

def attempt (success : Bool) (event : Event) : Job Unit :=
  if success then .emit event else .fail .database

def Calendar.day (cal : Calendar) (d : ℤ) : Job ℤ := if cal.Has d then pure d else .fail .panic

def rowId (ms : List (String × JsonTree)) : Option ℤ :=
  ((JsonTree.obj ms).get "id").bind fun v => (pyInt v).toOption

/-- `data.total_pages`, or one page. -/
def totalPages (data : JsonTree) : Except Invalid ℤ :=
  match (data.get "total_pages").filter Payload.truthyValue with
  | none => .ok 1
  | some v => pyInt v

section Loop

variable (cal : Calendar) (run : Run)

/-- **The rows of a page are queued.** A row without an identifier is skipped. -/
def queueRows (start stop page : ℤ) : ℕ → List JsonTree → Job ℕ
  | _, [] => pure 0
  | i, row :: rows => do
    let ms ← valid (object row)
    match rowId ms with
    | none => queueRows start stop page (i + 1) rows
    | some tmdbId => do
      attempt (run.inserts start page i) (.queued start stop page tmdbId)
      let n ← queueRows start stop page (i + 1) rows
      pure (n + 1)

def askPage (start stop page : ℤ) : Job JsonTree := do
  .emit (.asked start stop page)
  match run.changes (cal.text start) (cal.text stop) page with
  | none => .fail .request
  | some data => pure data

/-- **The pages of a window**, from one on. -/
def pages (start stop : ℤ) : ℕ → ℤ → Job ℕ
  | 0, _ => .fail .unfinished
  | fuel + 1, page => do
    let data ← askPage cal run start stop page
    let rows ← valid (listOrEmpty data "results")
    let n ← queueRows run start stop page 0 rows
    let total ← valid (totalPages data)
    if total ≤ page then pure n
    else do
      let m ← pages start stop fuel (page + 1)
      pure (n + m)

/-- **The windows**, from one on. -/
def windows : ℕ → ℤ → Job ℕ
  | 0, _ => .fail .unfinished
  | fuel + 1, start =>
    if start ≤ run.today then do
      let last ← cal.day (start + 13)
      let stop := min last run.today
      let n ← pages cal run start stop (2 ^ 63) 1
      attempt (run.saves start) (.saved stop)
      if run.today ≤ stop then pure n
      else do
        let m ← windows fuel stop
        pure (n + m)
    else pure 0

/-- The day that a run begins with. No cursor, or one that is no day, is two days back. -/
def startDay (today : ℤ) (cursor : Option String) : ℤ :=
  min ((cursor.bind cal.parse).getD (today - 2)) today

def readCursor (cursor : Option String) : Job (Option String) :=
  if run.cursorRead then pure cursor else .fail .database

/-- **`changes_since`** -/
def changesSince (cursor : Option String) : Job ℕ := do
  let cursor ← readCursor run cursor
  let _twoBack ← cal.day (run.today - 2)
  let start := startDay cal run.today cursor
  windows cal run (run.today - start + 1).toNat start

end Loop

/-! ### The queue -/

/-- The upsert of a listed title: its row is pending, with no attempts made. -/
def enqueue (q : Hydrate.Queue) (key : Hydrate.Key) : Hydrate.Queue where
  rows := if key ∈ q.rows.map Hydrate.QueueRow.key
    then q.rows.map fun r => if r.key = key then { r with status := .pending, attempts := 0 } else r
    else q.rows ++ [⟨key.1, key.2, .pending, 0⟩]
  nodup := by
    split
    · rw [List.map_map]
      refine (List.map_congr_left fun r _ => ?_ : _ = q.rows.map Hydrate.QueueRow.key) ▸ q.nodup
      rw [Function.comp_apply]
      split
      · rfl
      · rfl
    · next hnew =>
      rw [List.map_append, List.nodup_append]
      refine ⟨q.nodup, List.nodup_singleton _, fun k hk k' hk' => ?_⟩
      obtain rfl := List.mem_singleton.mp hk'
      rintro rfl
      exact hnew hk

def queueAfter (kind : String) (q : Hydrate.Queue) (done : List Event) : Hydrate.Queue :=
  done.foldl (fun q event => match event with
    | .queued _ _ _ tmdbId => enqueue q (tmdbId, kind)
    | _ => q) q

/-! ### What has been queued -/

structure PageQueued (cal : Calendar) (run : Run) (done : List Event) (start stop page : ℤ)
    (data : JsonTree) : Prop where
  answered : run.changes (cal.text start) (cal.text stop) page = some data
  asked : .asked start stop page ∈ done
  queued : ∃ rows, listOrEmpty data "results" = .ok rows ∧ ∀ row ∈ rows, ∃ ms,
    object row = .ok ms ∧ ∀ tmdbId, rowId ms = some tmdbId → .queued start stop page tmdbId ∈ done

/-- **All pages of a window have been queued**, up to one that says there are no more. -/
def Whole (cal : Calendar) (run : Run) (done : List Event) (start stop : ℤ) : Prop :=
  ∃ n, 1 ≤ n ∧
    (∀ page, 1 ≤ page → page ≤ n → ∃ data, PageQueued cal run done start stop page data) ∧
    ∃ data total, run.changes (cal.text start) (cal.text stop) n = some data ∧
      totalPages data = .ok total ∧ total ≤ n

section

variable {cal : Calendar} {run : Run} {start stop page : ℤ} {done : List Event}

theorem PageQueued.mono {data : JsonTree} {done' : List Event} (hsub : done ⊆ done')
    (h : PageQueued cal run done start stop page data) :
    PageQueued cal run done' start stop page data where
  answered := h.answered
  asked := hsub h.asked
  queued := by
    obtain ⟨rows, hrows, hqueued⟩ := h.queued
    refine ⟨rows, hrows, fun row hrow => ?_⟩
    obtain ⟨ms, hms, hids⟩ := hqueued row hrow
    exact ⟨ms, hms, fun tmdbId hid => hsub (hids tmdbId hid)⟩

theorem Whole.mono {done' : List Event} (hsub : done ⊆ done') (h : Whole cal run done start stop) :
    Whole cal run done' start stop := by
  obtain ⟨n, hn, hpages, hlast⟩ := h
  refine ⟨n, hn, fun page h1 hle => ?_, hlast⟩
  obtain ⟨data, hdata⟩ := hpages page h1 hle
  exact ⟨data, hdata.mono hsub⟩

/-! ### The rows of a page -/

theorem valid_eq_ok {α : Type} {r : Except Invalid α} {a : α} :
    (valid r).result = .ok a ↔ r = .ok a := by
  cases r with
  | error e => simp [valid, Except.mapError]
  | ok b => simp [valid, Except.mapError]

theorem day_eq_ok {cal : Calendar} {d d' : ℤ} (h : (cal.day d).result = .ok d') : d' = d := by
  rw [Calendar.day] at h
  split at h
  · exact (Except.ok.inj h).symm
  · cases h

theorem has_of_day_eq_ok {cal : Calendar} {d d' : ℤ} (h : (cal.day d).result = .ok d') :
    cal.Has d := by
  rw [Calendar.day] at h
  split at h
  · assumption
  · cases h

theorem trace_day (cal : Calendar) (d : ℤ) : (cal.day d).trace = [] := by
  rw [Calendar.day]
  split
  · rfl
  · rfl

theorem attempt_eq_ok {success : Bool} {event : Event}
    (h : (attempt success event).result = .ok ()) : (attempt success event).trace = [event] := by
  cases success with
  | false => cases h
  | true => rfl

theorem mem_attempt {success : Bool} {event event' : Event}
    (h : event' ∈ (attempt success event).trace) : event' = event := by
  cases success with
  | false => exact absurd h List.not_mem_nil
  | true => exact List.mem_singleton.mp h

theorem mem_queueRows {event : Event} : ∀ {rows : List JsonTree} {i : ℕ},
    event ∈ (queueRows run start stop page i rows).trace →
      ∃ tmdbId, event = .queued start stop page tmdbId
  | [], _, h => absurd h List.not_mem_nil
  | row :: rows, i, h => by
    rw [queueRows, Traced.mem_trace_bind] at h
    rcases h with h | ⟨ms, -, h⟩
    · exact absurd h List.not_mem_nil
    · cases hid : rowId ms with
      | none =>
        rw [hid] at h
        exact mem_queueRows h
      | some tmdbId =>
        rw [hid] at h
        simp only at h
        rw [Traced.mem_trace_bind] at h
        rcases h with h | ⟨-, -, h⟩
        · exact ⟨tmdbId, mem_attempt h⟩
        · rw [Traced.mem_trace_bind] at h
          rcases h with h | ⟨n, -, h⟩
          · exact mem_queueRows h
          · exact absurd h List.not_mem_nil

/-- **If the rows are through they have been queued.** -/
theorem queueRows_eq_ok : ∀ {rows : List JsonTree} {i k : ℕ},
    (queueRows run start stop page i rows).result = .ok k → ∀ row ∈ rows, ∃ ms,
      object row = .ok ms ∧ ∀ tmdbId, rowId ms = some tmdbId →
        .queued start stop page tmdbId ∈ (queueRows run start stop page i rows).trace
  | [], _, _, _ => fun row hrow => absurd hrow List.not_mem_nil
  | row :: rows, i, k, h => by
    rw [queueRows] at h ⊢
    obtain ⟨ms, hms, h⟩ := Traced.result_bind_eq_ok.mp h
    simp only [Traced.mem_trace_bind]
    cases hid : rowId ms with
    | none =>
      rw [hid] at h
      rintro row' (_ | ⟨_, hrow'⟩)
      · exact ⟨ms, valid_eq_ok.mp hms, fun tmdbId h' => absurd (hid.symm.trans h') nofun⟩
      · obtain ⟨ms', hms', hids⟩ := queueRows_eq_ok h row' hrow'
        refine ⟨ms', hms', fun tmdbId h' => .inr ⟨ms, hms, ?_⟩⟩
        rw [hid]
        exact hids tmdbId h'
    | some tmdbId =>
      rw [hid] at h
      obtain ⟨⟨⟩, hattempt, h⟩ := Traced.result_bind_eq_ok.mp h
      obtain ⟨n, hn, -⟩ := Traced.result_bind_eq_ok.mp h
      rintro row' (_ | ⟨_, hrow'⟩)
      · refine ⟨ms, valid_eq_ok.mp hms, fun tmdbId' h' => .inr ⟨ms, hms, ?_⟩⟩
        obtain rfl := Option.some.inj (hid.symm.trans h')
        rw [hid]
        simp only [Traced.mem_trace_bind]
        rw [attempt_eq_ok hattempt]
        exact .inl (List.mem_singleton_self _)
      · obtain ⟨ms', hms', hids⟩ := queueRows_eq_ok hn row' hrow'
        refine ⟨ms', hms', fun tmdbId' h' => .inr ⟨ms, hms, ?_⟩⟩
        rw [hid]
        simp only [Traced.mem_trace_bind]
        exact .inr ⟨(), hattempt, .inl (hids tmdbId' h')⟩

/-! ### The pages of a window -/

theorem trace_askPage : (askPage cal run start stop page).trace = [.asked start stop page] := by
  rw [askPage, Traced.bind_of_ok rfl]
  cases run.changes (cal.text start) (cal.text stop) page with
  | none => rfl
  | some data => rfl

theorem askPage_eq_ok {data : JsonTree} : (askPage cal run start stop page).result = .ok data ↔
    run.changes (cal.text start) (cal.text stop) page = some data := by
  rw [askPage, Traced.bind_of_ok rfl]
  cases run.changes (cal.text start) (cal.text stop) page with
  | none => simp
  | some data' => simp

theorem mem_pages {event : Event} : ∀ {fuel : ℕ} {page : ℤ},
    event ∈ (pages cal run start stop fuel page).trace →
      (∃ page, event = .asked start stop page) ∨
        ∃ page tmdbId, event = .queued start stop page tmdbId
  | 0, _, h => absurd h List.not_mem_nil
  | fuel + 1, page, h => by
    rw [pages] at h
    simp only [Traced.mem_trace_bind] at h
    rcases h with h | ⟨data, -, h | ⟨rows, -, h | ⟨n, -, h | ⟨total, -, h⟩⟩⟩⟩
    · rw [trace_askPage] at h
      exact .inl ⟨page, List.mem_singleton.mp h⟩
    · exact absurd h List.not_mem_nil
    · obtain ⟨tmdbId, rfl⟩ := mem_queueRows h
      exact .inr ⟨page, tmdbId, rfl⟩
    · exact absurd h List.not_mem_nil
    · split at h
      · exact absurd h List.not_mem_nil
      · rw [Traced.mem_trace_bind] at h
        rcases h with h | ⟨m, -, h⟩
        · exact mem_pages h
        · exact absurd h List.not_mem_nil

/-- **If the pages are through they have been queued**, up to one that says there are no more. -/
theorem pages_eq_ok : ∀ {fuel k : ℕ} {page : ℤ},
    (pages cal run start stop fuel page).result = .ok k → ∃ n, page ≤ n ∧
      (∀ page', page ≤ page' → page' ≤ n → ∃ data,
        PageQueued cal run (pages cal run start stop fuel page).trace start stop page' data) ∧
      ∃ data total, run.changes (cal.text start) (cal.text stop) n = some data ∧
        totalPages data = .ok total ∧ total ≤ n
  | 0, _, _, h => nomatch h
  | fuel + 1, k, page, h => by
    have hstep := h
    rw [pages] at hstep
    obtain ⟨data, hdata, hstep⟩ := Traced.result_bind_eq_ok.mp hstep
    obtain ⟨rows, hrows, hstep⟩ := Traced.result_bind_eq_ok.mp hstep
    obtain ⟨m, hm, hstep⟩ := Traced.result_bind_eq_ok.mp hstep
    obtain ⟨total, htotal, hstep⟩ := Traced.result_bind_eq_ok.mp hstep
    have hanswer := askPage_eq_ok.mp hdata
    have hpage : PageQueued cal run (pages cal run start stop (fuel + 1) page).trace start stop page
        data := by
      refine ⟨hanswer, ?_, rows, valid_eq_ok.mp hrows, fun row hrow => ?_⟩
      · rw [pages, Traced.mem_trace_bind, trace_askPage]
        exact .inl (List.mem_singleton_self _)
      · obtain ⟨ms, hms, hids⟩ := queueRows_eq_ok hm row hrow
        refine ⟨ms, hms, fun tmdbId hid => ?_⟩
        rw [pages]
        simp only [Traced.mem_trace_bind]
        exact .inr ⟨data, hdata, .inr ⟨rows, hrows, .inl (hids tmdbId hid)⟩⟩
    by_cases hlast : total ≤ page
    · -- there are no more
      refine ⟨page, le_rfl, fun page' hle hle' => ?_,
        data, total, hanswer, valid_eq_ok.mp htotal, hlast⟩
      obtain rfl : page' = page := le_antisymm hle' hle
      exact ⟨data, hpage⟩
    · rw [if_neg hlast] at hstep
      obtain ⟨m', hm', -⟩ := Traced.result_bind_eq_ok.mp hstep
      obtain ⟨n, hn, hpages, hend⟩ := pages_eq_ok hm'
      refine ⟨n, by omega, fun page' hle hle' => ?_, hend⟩
      by_cases heq : page' = page
      · exact ⟨data, heq ▸ hpage⟩
      · obtain ⟨data', hdata'⟩ := hpages page' (by omega) hle'
        refine ⟨data', hdata'.mono fun e he => ?_⟩
        rw [pages]
        simp only [Traced.mem_trace_bind]
        refine .inr ⟨data, hdata, .inr ⟨rows, hrows, .inr ⟨m, hm, .inr ⟨total, htotal, ?_⟩⟩⟩⟩
        rw [if_neg hlast, Traced.mem_trace_bind]
        exact .inl he

/-! ### The loops come to their ends -/

theorem valid_ne_unfinished {α : Type} {r : Except Invalid α} :
    (valid r).result ≠ .error .unfinished := by
  cases r with
  | error e => simp [valid, Except.mapError]
  | ok a => simp [valid, Except.mapError]

theorem attempt_ne_unfinished {success : Bool} {event : Event} :
    (attempt success event).result ≠ .error .unfinished := by
  cases success with
  | false => simp [attempt]
  | true => simp [attempt]

theorem askPage_ne_unfinished :
    (askPage cal run start stop page).result ≠ .error .unfinished := by
  rw [askPage, Traced.bind_of_ok rfl]
  cases run.changes (cal.text start) (cal.text stop) page with
  | none => simp
  | some data => simp

theorem queueRows_ne_unfinished : ∀ {rows : List JsonTree} {i : ℕ},
    (queueRows run start stop page i rows).result ≠ .error .unfinished
  | [], _ => nofun
  | row :: rows, i => by
    intro h
    rw [queueRows, Traced.result_bind_eq_error] at h
    rcases h with h | ⟨ms, -, h⟩
    · exact valid_ne_unfinished h
    · cases hid : rowId ms with
      | none =>
        rw [hid] at h
        exact queueRows_ne_unfinished h
      | some tmdbId =>
        rw [hid] at h
        simp only [Traced.result_bind_eq_error] at h
        rcases h with h | ⟨-, -, h | ⟨n, -, h⟩⟩
        · exact attempt_ne_unfinished h
        · exact queueRows_ne_unfinished h
        · cases h

theorem totalPages_lt {data : JsonTree} {total : ℤ} (h : totalPages data = .ok total) :
    total < 2 ^ 63 := by
  rw [totalPages] at h
  split at h
  · obtain rfl := Except.ok.inj h
    decide
  · exact (Payload.pyInt_bounds h).2

/-- **The loop over the pages comes to its end.** -/
theorem pages_ne_unfinished : ∀ {fuel : ℕ} {page : ℤ}, page < 2 ^ 63 → 2 ^ 63 ≤ page + fuel →
    (pages cal run start stop fuel page).result ≠ .error .unfinished
  | 0, page, hlt, hle => by omega
  | fuel + 1, page, hlt, hle => by
    intro h
    rw [pages] at h
    simp only [Traced.result_bind_eq_error] at h
    rcases h with h | ⟨data, -, h | ⟨rows, -, h | ⟨n, -, h | ⟨total, htotal, h⟩⟩⟩⟩
    · exact askPage_ne_unfinished h
    · exact valid_ne_unfinished h
    · exact queueRows_ne_unfinished h
    · exact valid_ne_unfinished h
    · have hbound := totalPages_lt (valid_eq_ok.mp htotal)
      split at h
      · cases h
      · -- there is another page
        rw [Traced.result_bind_eq_error] at h
        rcases h with h | ⟨m, -, h⟩
        · exact pages_ne_unfinished (by omega) (by omega) h
        · cases h

/-- **The loop over the windows comes to its end.** -/
theorem windows_ne_unfinished : ∀ {fuel : ℕ} {start : ℤ}, run.today < start + fuel →
    start ≤ run.today → (windows cal run fuel start).result ≠ .error .unfinished
  | 0, start, hfuel, hle => by omega
  | fuel + 1, start, hfuel, hle => by
    intro h
    rw [windows, if_pos hle] at h
    simp only [Traced.result_bind_eq_error] at h
    rcases h with h | ⟨last, hlast, h | ⟨n, -, h | ⟨-, -, h⟩⟩⟩
    · rw [Calendar.day] at h
      split at h
      · cases h
      · cases h
    · exact pages_ne_unfinished (by norm_num) (by norm_num) h
    · exact attempt_ne_unfinished h
    · obtain rfl := day_eq_ok hlast
      split at h
      · cases h
      · -- the next window begins where this one ends
        rw [Traced.result_bind_eq_error] at h
        rcases h with h | ⟨m, -, h⟩
        · exact windows_ne_unfinished (by omega) (by omega) h
        · cases h

theorem trace_readCursor {cursor : Option String} : (readCursor run cursor).trace = [] := by
  rw [readCursor]
  split
  · rfl
  · rfl

theorem readCursor_eq_ok {cursor cursor' : Option String}
    (h : (readCursor run cursor).result = .ok cursor') : cursor' = cursor := by
  rw [readCursor] at h
  split at h
  · exact (Except.ok.inj h).symm
  · cases h

theorem startDay_le {today : ℤ} {cursor : Option String} : startDay cal today cursor ≤ today :=
  min_le_right _ _

theorem changesSince_ne_unfinished (cal : Calendar) (run : Run) (cursor : Option String) :
    (changesSince cal run cursor).result ≠ .error .unfinished := by
  intro h
  rw [changesSince] at h
  simp only [Traced.result_bind_eq_error] at h
  rcases h with h | ⟨cursor, -, h | ⟨twoBack, -, h⟩⟩
  · rw [readCursor] at h
    split at h
    · cases h
    · cases h
  · rw [Calendar.day] at h
    split at h
    · cases h
    · cases h
  · have hle : startDay cal run.today cursor ≤ run.today := startDay_le
    exact windows_ne_unfinished (by omega) hle h

/-! ### The windows -/

/-- **A window has at most fourteen days.** -/
theorem span_of_mem_windows {a b : ℤ} : ∀ {fuel : ℕ} {start : ℤ},
    .asked a b page ∈ (windows cal run fuel start).trace → a ≤ b ∧ b ≤ a + 13
  | 0, _, h => absurd h List.not_mem_nil
  | fuel + 1, start, h => by
    rw [windows] at h
    split at h
    · next hle =>
      simp only [Traced.mem_trace_bind] at h
      rcases h with h | ⟨last, hlast, h | ⟨n, -, h | ⟨-, -, h⟩⟩⟩
      · rw [Calendar.day] at h
        split at h
        · exact absurd h List.not_mem_nil
        · exact absurd h List.not_mem_nil
      · obtain rfl := day_eq_ok hlast
        rcases mem_pages h with ⟨page', heq⟩ | ⟨_, _, heq⟩
        · obtain ⟨rfl, rfl, -⟩ := Event.asked.inj heq
          omega
        · cases heq
      · cases mem_attempt h
      · split at h
        · exact absurd h List.not_mem_nil
        · rw [Traced.mem_trace_bind] at h
          rcases h with h | ⟨m, -, h⟩
          · exact span_of_mem_windows h
          · exact absurd h List.not_mem_nil
    · exact absurd h List.not_mem_nil

/-- Each day from one on is in a window that has been queued. -/
def CoveredFrom (cal : Calendar) (run : Run) (done : List Event) (start c : ℤ) : Prop :=
  ∀ d, start ≤ d → d ≤ c → ∃ a b, a ≤ d ∧ d ≤ b ∧ Whole cal run done a b

theorem whole_of_pages_eq_ok {fuel k : ℕ}
    (h : (pages cal run start stop fuel 1).result = .ok k) :
    Whole cal run (pages cal run start stop fuel 1).trace start stop :=
  pages_eq_ok h

theorem CoveredFrom.append {t t' : List Event} {b c : ℤ} (h : Whole cal run t start b)
    (h' : CoveredFrom cal run t' b c) : CoveredFrom cal run (t ++ t') start c := by
  intro d hd hdc
  by_cases hdb : d ≤ b
  · exact ⟨start, b, hd, hdb, h.mono (List.subset_append_left _ _)⟩
  · obtain ⟨a', b', ha, hb, hwhole⟩ := h' d (by omega) hdc
    exact ⟨a', b', ha, hb, hwhole.mono (List.subset_append_right _ _)⟩

theorem CoveredFrom.mono {t t' : List Event} {c : ℤ} (hsub : t ⊆ t')
    (h : CoveredFrom cal run t start c) : CoveredFrom cal run t' start c := by
  intro d hd hdc
  obtain ⟨a, b, ha, hb, hwhole⟩ := h d hd hdc
  exact ⟨a, b, ha, hb, hwhole.mono hsub⟩

/-- **At every moment, what is stored has been covered.** -/
theorem covered_of_prefix_windows {c : ℤ} : ∀ {fuel : ℕ} {start : ℤ} {t : List Event},
    t <+: (windows cal run fuel start).trace → .saved c ∈ t →
      start ≤ c ∧ c ≤ run.today ∧ CoveredFrom cal run t start c
  | 0, _, t, h, hc => by
    obtain rfl := List.prefix_nil.mp h
    exact absurd hc List.not_mem_nil
  | fuel + 1, start, t, h, hc => by
    rw [windows] at h
    split at h
    · next hle =>
      rcases Traced.prefix_bind h with h | ⟨last, u, hlast, hu, rfl⟩
      · rw [trace_day] at h
        obtain rfl := List.prefix_nil.mp h
        exact absurd hc List.not_mem_nil
      obtain rfl := day_eq_ok hlast
      rw [trace_day, List.nil_append] at hc ⊢
      have hpages : ∀ b, .saved c ∉ (pages cal run start b (2 ^ 63) 1).trace := by
        intro b hmem
        rcases mem_pages hmem with ⟨_, heq⟩ | ⟨_, _, heq⟩
        · cases heq
        · cases heq
      rcases Traced.prefix_bind hu with hu | ⟨n, v, hn, hv', rfl⟩
      · exact absurd (hu.subset hc) (hpages _)
      -- the pages are through
      have hwhole := whole_of_pages_eq_ok hn
      have hv := (List.mem_append.mp hc).resolve_left (hpages _)
      rcases Traced.prefix_bind hv' with hv' | ⟨⟨⟩, w, hsaved, hw, rfl⟩
      · obtain rfl := Event.saved.inj (mem_attempt (hv'.subset hv))
        exact ⟨by omega, by omega, fun d hd hdc =>
          ⟨start, _, hd, hdc, hwhole.mono (List.subset_append_left _ _)⟩⟩
      -- the window is stored
      rw [attempt_eq_ok hsaved] at hv ⊢
      rcases List.mem_append.mp hv with hv | hv
      · obtain rfl := Event.saved.inj (List.mem_singleton.mp hv)
        exact ⟨by omega, by omega, fun d hd hdc =>
          ⟨start, _, hd, hdc, hwhole.mono (List.subset_append_left _ _)⟩⟩
      · split at hw
        · obtain rfl := List.prefix_nil.mp hw
          exact absurd hv List.not_mem_nil
        · obtain ⟨hstart, htoday, hcovered⟩ :=
            covered_of_prefix_windows (Traced.prefix_of_bind_pure hw) hv
          exact ⟨by omega, htoday,
            .append hwhole (hcovered.mono (List.subset_append_right _ _))⟩
    · obtain rfl := List.prefix_nil.mp h
      exact absurd hc List.not_mem_nil

theorem trace_changesSince {cursor : Option String} {t : List Event}
    (h : t <+: (changesSince cal run cursor).trace) :
    t = [] ∨ cal.Has (run.today - 2) ∧ t <+: (windows cal run
      (run.today - startDay cal run.today cursor + 1).toNat
      (startDay cal run.today cursor)).trace := by
  rw [changesSince] at h
  rcases Traced.prefix_bind h with h | ⟨cursor', u, hread, hu, rfl⟩
  · rw [trace_readCursor] at h
    exact .inl (List.prefix_nil.mp h)
  obtain rfl := readCursor_eq_ok hread
  rw [trace_readCursor, List.nil_append]
  rcases Traced.prefix_bind hu with hu | ⟨d, v, hd, hv, rfl⟩
  · rw [trace_day] at hu
    exact .inl (List.prefix_nil.mp hu)
  · rw [trace_day, List.nil_append]
    exact .inr ⟨has_of_day_eq_ok hd, hv⟩

end

/-! ### Runs -/

/-- The cursor after some of what a run does. -/
def cursorAfter (cal : Calendar) (cursor : Option String) (done : List Event) : Option String :=
  done.foldl (fun cursor event => match event with
    | .saved stop => some (cal.text stop)
    | _ => cursor) cursor

/-- What has been done: the runs, and of each what it did before it ended or was cut off. -/
abbrev History := List (Run × List Event)

/-- **What can have happened, and the cursor that is stored then.** The last run may still be going
on; no day comes before that of an earlier run. -/
inductive Reached (cal : Calendar) (found : Option String) : History → Option String → Prop
  | start : Reached cal found [] found
  | run {past : History} {cursor : Option String} {run : Run} {done : List Event}
      (reached : Reached cal found past cursor) (has : cal.Has run.today)
      (later : ∀ r ∈ past, r.1.today ≤ run.today)
      (doing : done <+: (changesSince cal run cursor).trace) :
      Reached cal found (past ++ [(run, done)]) (cursorAfter cal cursor done)

/-- A window that has this day has been queued. -/
def Covered (cal : Calendar) (past : History) (d : ℤ) : Prop :=
  ∃ r ∈ past, ∃ a b, a ≤ d ∧ d ≤ b ∧ Whole cal r.1 r.2 a b

def Event.saves : Event → Bool
  | .saved _ => true
  | _ => false

/-- The day that the first run began with that has stored the cursor. -/
def firstStart (cal : Calendar) (found : Option String) (past : History) : Option ℤ :=
  (past.find? fun r => r.2.any Event.saves).map fun r => startDay cal r.1.today found

section

variable {cal : Calendar} {run : Run} {found cursor : Option String} {past : History}
  {done : List Event}

variable (cal) in
/-- **The cursor is the last day that was stored.** -/
theorem cursorAfter_eq : ∀ (done : List Event) (cursor : Option String),
    (done.any Event.saves = false ∧ cursorAfter cal cursor done = cursor) ∨
      (done.any Event.saves = true ∧ ∃ c, .saved c ∈ done ∧
        cursorAfter cal cursor done = some (cal.text c))
  | [], _ => .inl ⟨rfl, rfl⟩
  | event :: done, cursor => by
    rcases cursorAfter_eq done (cursorAfter cal cursor [event]) with
      ⟨hnone, heq⟩ | ⟨hsome, c, hc, heq⟩
    · -- nothing is stored after this
      rcases event with ⟨a, b, page⟩ | ⟨a, b, page, tmdbId⟩ | stop
      · exact .inl ⟨hnone, heq⟩
      · exact .inl ⟨hnone, heq⟩
      · exact .inr ⟨rfl, stop, List.mem_cons_self, heq⟩
    · exact .inr ⟨by rw [List.any_cons, hsome, Bool.or_true], c, List.mem_cons_of_mem _ hc, heq⟩

/-- **What holds at every moment.** -/
structure Inv (cal : Calendar) (found : Option String) (past : History) (cursor : Option String) :
    Prop where
  span : ∀ r ∈ past, ∀ a b page, .asked a b page ∈ r.2 → a ≤ b ∧ b ≤ a + 13
  unstored : firstStart cal found past = none → cursor = found
  stored : ∀ s, firstStart cal found past = some s → ∃ c, cursor = some (cal.text c) ∧ cal.Has c ∧
    (∃ r ∈ past, c ≤ r.1.today) ∧ ∀ d, s ≤ d → d ≤ c → Covered cal past d

theorem Covered.mono {past' : History} {d : ℤ} (hsub : past ⊆ past') (h : Covered cal past d) :
    Covered cal past' d := by
  obtain ⟨r, hr, hwindow⟩ := h
  exact ⟨r, hsub hr, hwindow⟩

theorem span_of_mem {a b page : ℤ} (hdone : done <+: (changesSince cal run cursor).trace)
    (h : .asked a b page ∈ done) : a ≤ b ∧ b ≤ a + 13 := by
  rcases trace_changesSince hdone with rfl | ⟨-, hwindows⟩
  · exact absurd h List.not_mem_nil
  · exact span_of_mem_windows (hwindows.subset h)

variable (past) in
/-- **A run that has stored a day has covered what is before it**, from its start on. -/
theorem covered_of_mem {c : ℤ} (hlawful : cal.Lawful) (htoday : cal.Has run.today)
    (hdone : done <+: (changesSince cal run cursor).trace) (hc : .saved c ∈ done) :
    startDay cal run.today cursor ≤ c ∧ cal.Has c ∧ c ≤ run.today ∧
      ∀ d, startDay cal run.today cursor ≤ d → d ≤ c → Covered cal (past ++ [(run, done)]) d := by
  rcases trace_changesSince hdone with rfl | ⟨htwoBack, hwindows⟩
  · exact absurd hc List.not_mem_nil
  obtain ⟨hstart, hle, hcovered⟩ := covered_of_prefix_windows hwindows hc
  have hfirst : cal.first ≤ startDay cal run.today cursor := by
    rw [startDay]
    refine le_min ?_ htoday.1
    cases hparse : cursor.bind cal.parse with
    | none => exact htwoBack.1
    | some d =>
      obtain ⟨s, -, hs⟩ := Option.bind_eq_some_iff.mp hparse
      exact (hlawful.has_of_parse s d hs).1
  refine ⟨hstart, ⟨by omega, hle.trans htoday.2⟩, hle, fun d hd hdc => ?_⟩
  exact ⟨(run, done), List.mem_append_right _ (List.mem_singleton_self _), hcovered d hd hdc⟩

theorem firstStart_append : firstStart cal found (past ++ [(run, done)]) =
    (firstStart cal found past).or
      (if done.any Event.saves then some (startDay cal run.today found) else none) := by
  rw [firstStart, firstStart, List.find?_append]
  cases past.find? fun r => r.2.any Event.saves with
  | some r => rfl
  | none =>
    cases hdone : done.any Event.saves with
    | false => simp [hdone]
    | true => simp [hdone]

/-- **One run more.** -/
theorem Inv.append (hlawful : cal.Lawful) (h : Inv cal found past cursor)
    (htoday : cal.Has run.today) (hlater : ∀ r ∈ past, r.1.today ≤ run.today)
    (hdone : done <+: (changesSince cal run cursor).trace) :
    Inv cal found (past ++ [(run, done)]) (cursorAfter cal cursor done) where
  span := by
    intro r hr a b page hasked
    rcases List.mem_append.mp hr with hr | hr
    · exact h.span r hr a b page hasked
    · obtain rfl := List.mem_singleton.mp hr
      exact span_of_mem hdone hasked
  unstored := by
    intro hnone
    rw [firstStart_append, Option.or_eq_none_iff] at hnone
    rcases cursorAfter_eq cal done cursor with
      ⟨-, heq⟩ | ⟨hsome, -⟩
    · rw [heq, h.unstored hnone.1]
    · rw [if_pos hsome] at hnone
      cases hnone.2
  stored := by
    intro s hs
    rw [firstStart_append] at hs
    rcases cursorAfter_eq cal done cursor with
      ⟨hnone, heq⟩ | ⟨hsome, c, hc, heq⟩
    · -- the run has stored nothing
      rw [hnone, if_neg Bool.false_ne_true, Option.or_none] at hs
      obtain ⟨c, hcursor, hhas, ⟨r, hr, hle⟩, hcovered⟩ := h.stored s hs
      exact ⟨c, heq.trans hcursor, hhas, ⟨r, List.mem_append_left _ hr, hle⟩,
        fun d hd hdc => (hcovered d hd hdc).mono (List.subset_append_left _ _)⟩
    obtain ⟨-, hhas, hle, hcovered⟩ := covered_of_mem past hlawful htoday hdone hc
    refine ⟨c, heq, hhas, ⟨_, List.mem_append_right _ (List.mem_singleton_self _), hle⟩, ?_⟩
    intro d hd hdc
    cases hfirst : firstStart cal found past with
    | none =>
      -- it is the first that has
      rw [hfirst, Option.none_or, if_pos hsome] at hs
      obtain rfl := Option.some.inj hs
      rw [h.unstored hfirst] at hcovered
      exact hcovered d hd hdc
    | some s' =>
      -- it begins where an earlier one has come to
      rw [hfirst, Option.some_or] at hs
      obtain rfl := Option.some.inj hs
      obtain ⟨c', hcursor, hhas', ⟨r, hr, hle'⟩, hcovered'⟩ := h.stored s' hfirst
      have hstart : startDay cal run.today cursor = c' := by
        rw [startDay, hcursor, Option.bind_some, hlawful.parse_text c' hhas', Option.getD_some]
        exact min_eq_left (hle'.trans (hlater r hr))
      by_cases hdc' : d ≤ c'
      · exact (hcovered' d hd hdc').mono (List.subset_append_left _ _)
      · exact hcovered d (by omega) hdc

/-- **It holds at every moment of every run.** -/
theorem inv_of_reached (hlawful : cal.Lawful) (h : Reached cal found past cursor) :
    Inv cal found past cursor := by
  induction h with
  | start =>
    refine ⟨fun r hr => absurd hr List.not_mem_nil, fun _ => rfl, fun s hs => ?_⟩
    cases hs
  | run _ has later doing ih => exact ih.append hlawful has later doing

theorem today_head_le (h : Reached cal found past cursor) {first : Run × List Event}
    (hfirst : past.head? = some first) : ∀ r ∈ past, first.1.today ≤ r.1.today := by
  induction h with
  | start => cases hfirst
  | @run past cursor run done _ has later doing ih =>
    intro r hr
    rcases past with _ | ⟨r₀, past⟩
    · obtain rfl := Option.some.inj hfirst
      obtain rfl := List.mem_singleton.mp hr
      exact le_rfl
    · rcases List.mem_append.mp hr with hr | hr
      · exact ih hfirst r hr
      · obtain rfl := List.mem_singleton.mp hr
        obtain rfl := Option.some.inj hfirst
        exact later _ List.mem_cons_self

end

/-- **The cursor skips no day** from the start of the first run on that has stored it. Every run
comes to its end, and every window has at most fourteen days. If the cursor that was found is a day,
and not one after the first run's, the first run that has stored it began on that day, as the first
run did. -/
theorem cursor_skips_no_day (cal : Calendar) (hlawful : cal.Lawful) :
    (∀ run cursor, (changesSince cal run cursor).result ≠ .error .unfinished) ∧
    ∀ found past cursor, Reached cal found past cursor →
      (∀ r ∈ past, ∀ a b page, .asked a b page ∈ r.2 → a ≤ b ∧ b ≤ a + 13) ∧
      (firstStart cal found past = none → cursor = found) ∧
      (∀ s c, firstStart cal found past = some s → cursor.bind cal.parse = some c →
        ∀ d, s ≤ d → d ≤ c → Covered cal past d) ∧
      ∀ first, past.head? = some first → ∀ f, found.bind cal.parse = some f →
        f ≤ first.1.today → startDay cal first.1.today found = f ∧
          ∀ s, firstStart cal found past = some s → s = f := by
  refine ⟨changesSince_ne_unfinished cal, fun found past cursor h => ?_⟩
  have hinv := inv_of_reached hlawful h
  refine ⟨hinv.span, hinv.unstored, fun s c hs hc => ?_, fun first hfirst f hf hle => ?_⟩
  · obtain ⟨c', rfl, hhas, -, hcovered⟩ := hinv.stored s hs
    rw [Option.bind_some, hlawful.parse_text c' hhas] at hc
    obtain rfl := Option.some.inj hc
    exact hcovered
  · have hday : ∀ r ∈ past, startDay cal r.1.today found = f := by
      intro r hr
      rw [startDay, hf, Option.getD_some]
      exact min_eq_left (hle.trans (today_head_le h hfirst r hr))
    refine ⟨hday first (List.mem_of_mem_head? hfirst), fun s hs => ?_⟩
    obtain ⟨r, hr, rfl⟩ := Option.map_eq_some_iff.mp hs
    exact hday r (List.mem_of_find?_eq_some hr)

def january : Calendar where
  first := 1
  last := 31
  text d := (if d < 10 then "2024-01-0" else "2024-01-") ++ toString d
  parse s := ((List.range' 1 31).find? fun d : ℕ =>
    (if d < 10 then "2024-01-0" else "2024-01-") ++ toString d = s).map Int.ofNat

theorem january_lawful : january.Lawful where
  parse_text := by
    intro d hd
    have hall : ∀ n ∈ List.range' 1 31, january.parse (january.text (n : ℕ)) = some (n : ℤ) := by
      decide +kernel
    have hfirst := hd.1
    have hlast := hd.2
    simp only [january] at hfirst hlast
    obtain ⟨n, rfl⟩ : ∃ n : ℕ, d = n := ⟨d.toNat, by omega⟩
    exact hall n (List.mem_range'_1.mpr (by omega))
  has_of_parse := by
    intro s d h
    obtain ⟨n, hn, rfl⟩ := Option.map_eq_some_iff.mp h
    have hmem := List.mem_range'_1.mp (List.mem_of_find?_eq_some hn)
    rw [Calendar.Has]
    simp only [january, Int.ofNat_eq_natCast]
    omega

def failedRun : Run := ⟨10, true, fun _ _ _ => none, fun _ _ _ => true, fun _ => true⟩

/-- A run ten days later that is told of no changes. -/
def nextRun : Run := ⟨20, true, fun _ _ _ => some (.obj []), fun _ _ _ => true, fun _ => true⟩

/-- The cursor of ten days before is where it begins. -/
theorem cursor_skips_no_day_nextRun :
    Covered january [(nextRun, [.asked 10 20 1, .saved 20])] 15 := by
  have hreached : Reached january (some "2024-01-10")
      ([] ++ [(nextRun, [.asked 10 20 1, .saved 20])]) _ :=
    .run .start (by decide) (by simp) (by decide +kernel)
  exact ((cursor_skips_no_day january january_lawful).2 _ _ _ hreached).2.2.1 10 20
    (by rfl) (by rfl) 15 (by decide) (by decide)

/-- **Where there is no cursor, a run that fails is forgotten**: the next one begins two days back
from its own day, and the days before are in no window. -/
theorem cursor_skips_days :
    let past : History := [(failedRun, [.asked 8 10 1]), (nextRun, [.asked 18 20 1, .saved 20])]
    Reached january none past (some "2024-01-20") ∧ startDay january failedRun.today none = 8 ∧
      ¬ Covered january past 12 := by
  refine ⟨?_, by decide, ?_⟩
  · have hfailed : Reached january none ([] ++ [(failedRun, [.asked 8 10 1])])
        (cursorAfter january none [.asked 8 10 1]) :=
      .run .start (by decide) (by simp) (by decide +kernel)
    exact hfailed.run (by decide) (by decide) (by decide +kernel)
  · rintro ⟨r, hr, a, b, ha, hb, n, hn, hpages, -⟩
    obtain ⟨data, hdata⟩ := hpages 1 le_rfl hn
    rcases hr with _ | ⟨_, _ | ⟨_, hr⟩⟩
    · cases hdata.answered
    · have hasked := hdata.asked
      simp at hasked
      omega
    · cases hr

end EmeraldExchange.Recommender.Changes
