import EmeraldExchange.Lib.Runs
import EmeraldExchange.Iptv.Dvr

/-!
# Scheduling on one channel

A second recording of one channel would need a provider connection of its own, so the
schedule route refuses a recording whose window overlaps an active one of the channel. It
reads the windows of the active rows, checks, and inserts, while other requests, the scheduler,
the recorder and the delete route go on changing and deleting rows.

The check itself is exact (`Iptv.not_overlap_of_validate`,
`Iptv.not_overlap_touching`). What it is made against may have grown since:
two requests that both read before either inserts are both accepted
(`not_noOverlap_race`). As long as every overlapping row that an
insert meets had been read by its request, no two active rows of a channel ever overlap
(`noOverlap_of_runs`).
-/

namespace EmeraldExchange.Iptv.Schedule

inductive Request
  | idle
  | selected (input : NewRecording) (existing : List (String × String))
  | refused (code : String)
  | created (row : Recording)
  deriving DecidableEq

/-- **The table and the requests on it.** -/
structure World where
  rows : List Recording
  requests : ℕ → Request

def World.init (rows : List Recording) : World := ⟨rows, fun _ => .idle⟩

inductive Action
  /-- Request `q` reads the windows of its channel. -/
  | select (q : ℕ) (input : NewRecording)
  /-- Request `q` checks its recording and inserts it under `id`, or is refused. -/
  | insert (q : ℕ) (now : ℤ) (id : String)
  /-- Another part of the service writes a status. -/
  | setStatus (id : String) (status : Status)
  /-- Another part of the service deletes a row. -/
  | delete (id : String)

namespace World

variable (ms : String → Option ℤ) (w : World)

/-- The windows a request reads: none where its channel is not a whole number. -/
def existing (input : NewRecording) : List (String × String) :=
  if wholeNumber input.channelStreamId then
    channelWindows w.rows (asI64 input.channelStreamId)
  else []

/-- Request `q` reads the windows of its channel. -/
def select (q : ℕ) (input : NewRecording) : Option World :=
  match w.requests q with
  | .idle => some { w with
      requests := Function.update w.requests q (.selected input (w.existing input)) }
  | _ => none

/-- Request `q` checks its recording against what it read, and inserts it under a new id. -/
def insert (q : ℕ) (now : ℤ) (id : String) : Option World :=
  match w.requests q with
  | .selected input existing =>
    match validate ms input now existing with
    | some code => some { w with requests := Function.update w.requests q (.refused code) }
    | none =>
      if (getRecording w.rows id).isSome then none
      else some { w with
        rows := w.rows ++ [scheduleRow input id]
        requests := Function.update w.requests q (.created (scheduleRow input id)) }
  | _ => none

/-- A status is written, which never makes a row active that was not. -/
def setStatus (id : String) (status : Status) : Option World :=
  if status.Active ∧ ∃ r ∈ w.rows, r.id = id ∧ ¬ r.status.Active then none
  else some { w with rows := updateRecording w.rows id fun r => { r with status := status } }

def delete (id : String) : Option World := some { w with rows := deleteRecording w.rows id }

end World

/-- **One step of the table and its requests.** -/
def step (ms : String → Option ℤ) (w : World) : Action → Option World
  | .select q input => w.select q input
  | .insert q now id => w.insert ms q now id
  | .setStatus id status => w.setStatus id status
  | .delete id => w.delete id

/-! ### The property and its condition -/

/-- Two rows do not stand in each other's way. -/
def Apart (ms : String → Option ℤ) (r r' : Recording) : Prop :=
  r.status.Active → r'.status.Active → r.channelStreamId = r'.channelStreamId →
    ¬ Overlap (ms r.startUtc) (ms r.stopUtc) (ms r'.startUtc) (ms r'.stopUtc)

/-- **No two active rows of a channel overlap.** -/
def NoOverlap (ms : String → Option ℤ) (rows : List Recording) : Prop := rows.Pairwise (Apart ms)

/-- **The condition**: what a request finds in its way when it inserts, it had read. -/
def overlapsRead (ms : String → Option ℤ) (w : World) : Action → Prop
  | .insert q _ _ => ∀ input existing, w.requests q = .selected input existing →
      ∀ r ∈ w.rows, r.status.Active → r.channelStreamId = asI64 input.channelStreamId →
        Overlap (ms r.startUtc) (ms r.stopUtc) (ms input.startUtc) (ms input.stopUtc) →
          (r.startUtc, r.stopUtc) ∈ existing
  | _ => True

section proofs

variable {ms : String → Option ℤ} {w w' : World}

theorem Apart.of_status {r r' : Recording} {status status' : Status} (h : Apart ms r r')
    (hr : status.Active → r.status.Active) (hr' : status'.Active → r'.status.Active) :
    Apart ms { r with status := status } { r' with status := status' } :=
  fun ha ha' hchannel => h (hr ha) (hr' ha') hchannel

theorem NoOverlap.setStatus {rows : List Recording} (h : NoOverlap ms rows) {id : String}
    {status : Status}
    (hstatus : status.Active → ∀ r ∈ rows, r.id = id → r.status.Active) :
    NoOverlap ms (updateRecording rows id fun r => { r with status := status }) := by
  have hwrite : ∀ r ∈ rows, (if r.id = id then { r with status := status } else r) =
      { r with status := if r.id = id then status else r.status } := by
    intro r _
    split <;> rfl
  have hactive : ∀ r ∈ rows, (if r.id = id then status else r.status).Active →
      r.status.Active := by
    intro r hr ha
    split at ha
    · next hid => exact hstatus ha r hr hid
    · exact ha
  rw [NoOverlap, updateRecording, List.map_congr_left hwrite, List.pairwise_map]
  exact List.Pairwise.imp_of_mem
    (fun hr hr' hapart => hapart.of_status (hactive _ hr) (hactive _ hr')) h

theorem NoOverlap.concat {rows : List Recording} (h : NoOverlap ms rows) {r : Recording}
    (hr : ∀ r' ∈ rows, Apart ms r' r) : NoOverlap ms (rows ++ [r]) :=
  List.pairwise_append.mpr ⟨h, List.pairwise_singleton _ _, by simpa using hr⟩

/-- **A step that meets the condition keeps the channel clear.** -/
theorem NoOverlap.step {a : Action} (h : NoOverlap ms w.rows) (hguard : overlapsRead ms w a)
    (hstep : step ms w a = some w') : NoOverlap ms w'.rows := by
  cases a with
  | select q input =>
    simp only [Schedule.step, World.select] at hstep
    split at hstep
    · obtain rfl := Option.some.inj hstep
      exact h
    · cases hstep
  | insert q now id =>
    simp only [Schedule.step, World.insert] at hstep
    split at hstep
    · next input existing hq =>
      split at hstep
      · obtain rfl := Option.some.inj hstep
        exact h
      · next hvalid =>
        split at hstep
        · cases hstep
        · obtain rfl := Option.some.inj hstep
          refine h.concat fun r hr hactive _ hchannel hover => ?_
          -- an overlapping row would have been read, and the check would have refused
          exact not_overlap_of_validate hvalid
            (hguard input existing hq r hr hactive hchannel hover) hover
    · cases hstep
  | setStatus id status =>
    simp only [Schedule.step, World.setStatus] at hstep
    split at hstep
    · cases hstep
    · next hkeep =>
      obtain rfl := Option.some.inj hstep
      refine h.setStatus fun ha r hr hid => ?_
      by_contra hnot
      exact hkeep ⟨ha, r, hr, hid, hnot⟩
  | delete id =>
    obtain rfl := Option.some.inj hstep
    exact h.filter _

/-- **The windows of a channel never overlap**, from any table in which they do not, along
every run in which each insert meets only overlapping rows its request had read. -/
theorem noOverlap_of_runs {rows : List Recording} (hrows : NoOverlap ms rows)
    (h : Runs (step ms) (overlapsRead ms) (World.init rows) w) : NoOverlap ms w.rows :=
  Runs.invariant (P := fun v => NoOverlap ms v.rows) h hrows fun _ _ _ hv hguard hstep =>
    hv.step hguard hstep

end proofs

/-! ### Two requests for one hour -/

/-- The milliseconds of the times used below. -/
def sampleMs (s : String) : Option ℤ :=
  if s = "2026-01-01T20:00:00Z" then some 1767297600000
  else if s = "2026-01-01T21:00:00Z" then some 1767301200000
  else if s = "2026-01-01T22:00:00Z" then some 1767304800000
  else none

def onSeven (start stop : String) : NewRecording where
  channelStreamId := some 7
  channelName := "Seven"
  title := "News"
  startUtc := start
  stopUtc := stop

/-- Two recordings one after the other, back to back, are both accepted. -/
theorem noOverlap_backToBack :
    ∃ w, Runs (step sampleMs) (overlapsRead sampleMs) (World.init []) w ∧
      w.rows.length = 2 ∧ NoOverlap sampleMs w.rows := by
  have hruns : ∃ w, Runs (step sampleMs) (overlapsRead sampleMs) (World.init []) w ∧
      w.rows.length = 2 := by
    refine ⟨_, .head ⟨.select 0 (onSeven "2026-01-01T20:00:00Z" "2026-01-01T21:00:00Z"),
      trivial, rfl⟩ (.head ⟨.insert 0 0 "a", ?_, rfl⟩
      (.head ⟨.select 1 (onSeven "2026-01-01T21:00:00Z" "2026-01-01T22:00:00Z"), trivial, rfl⟩
      (.single ⟨.insert 1 0 "b", ?_, rfl⟩))), rfl⟩
    · -- the table is still empty
      intro input existing _ r hr
      cases hr
    · -- what is in the table touches the second window
      intro input existing hq r hr _ _ hover
      obtain rfl : r = scheduleRow (onSeven "2026-01-01T20:00:00Z" "2026-01-01T21:00:00Z") "a" :=
        List.mem_singleton.mp hr
      obtain rfl : onSeven "2026-01-01T21:00:00Z" "2026-01-01T22:00:00Z" = input :=
        (Request.selected.inj hq).1
      exact (not_overlap_touching _ _ _ hover).elim
  obtain ⟨w, hw, hlength⟩ := hruns
  exact ⟨w, hw, hlength, noOverlap_of_runs List.Pairwise.nil hw⟩

/-- **Two requests that read before either inserts are both accepted**, and the channel has
two active recordings of the same hour. -/
theorem not_noOverlap_race :
    ∃ w, Runs (step sampleMs) anyStep (World.init []) w ∧ ¬ NoOverlap sampleMs w.rows := by
  have hexec : ∃ w, exec (step sampleMs) (World.init [])
      [.select 0 (onSeven "2026-01-01T20:00:00Z" "2026-01-01T21:00:00Z"),
        .select 1 (onSeven "2026-01-01T20:00:00Z" "2026-01-01T21:00:00Z"),
        .insert 0 0 "a", .insert 1 0 "b"] = some w ∧ ¬ NoOverlap sampleMs w.rows := by
    refine ⟨_, rfl, fun h => ?_⟩
    have hapart : Apart sampleMs
        (scheduleRow (onSeven "2026-01-01T20:00:00Z" "2026-01-01T21:00:00Z") "a")
        (scheduleRow (onSeven "2026-01-01T20:00:00Z" "2026-01-01T21:00:00Z") "b") :=
      (List.pairwise_cons.mp h).1 _ (List.mem_singleton_self _)
    refine hapart trivial trivial rfl ⟨1767297600000, ?_⟩
    decide
  exact exists_runs_of_exec hexec

end EmeraldExchange.Iptv.Schedule
