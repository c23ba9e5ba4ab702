import EmeraldExchange.Lib.Runs
import EmeraldExchange.Iptv.Dvr

/-!
# The outcome of a recording

Three parties write the status of a recording: the scheduler's tick, the recorder when one of its
ffmpeg children exits (`finalize`), and the delete route. Each reads first and writes later, in
separate statements, so each may find at its write that another has written.

An outcome (`cancelled`, `completed`, `failed`, `missed`) should be the last word, and a cancel
should leave no child running that nobody has asked to stop. Only the write that turns a row to
`recording` says in its `WHERE` that the row is still active. The others name the id alone: a tick
that selected a row before it was cancelled marks it `missed` all the same (`not_absorbing_missed`),
and a row started after the route first read it is cancelled with its child running
(`not_cancelWins_started`).

What keeps the outcomes is the condition `outcomesKept`: no write finds that the row has an outcome
already, no child is started for such a row, and none has been started since a cancel read its row.
Along every run that meets it, an outcome is the last word and a cancel wins (`absorbing_of_runs`).
-/

namespace EmeraldExchange.Iptv.Outcome

/-! ### Children -/

/-- How ffmpeg exited, and whether it had been sent a SIGTERM. -/
structure Exit where
  code : Option ℤ
  signal : Option ℤ
  termed : Bool
  deriving DecidableEq

def signalName (sig : ℤ) : String :=
  if sig = 15 then "SIGTERM"
  else if sig = 9 then "SIGKILL"
  else if sig = 2 then "SIGINT"
  else toString sig

/-- Exited because of a SIGTERM: killed by it, or trapped it and exited 255. -/
def Exit.sigtermed (exit : Exit) : Bool :=
  exit.signal = some 15 || exit.termed && exit.signal.isNone && exit.code = some 255

def Exit.error (exit : Exit) : String :=
  let code := exit.code.elim "null" toString
  let signal := exit.signal.elim "" signalName
  s!"ffmpeg exited code={code} signal={signal}"

/-- **What `finalize` writes**, from the row it reads: nothing where the row is gone, was
cancelled or has an outcome, and nothing where a SIGTERM came inside the window. -/
def verdict (ms : String → Option ℤ) (now : ℤ) (exit : Exit) :
    Option Recording → Option (Status × Option String)
  | none => none
  | some row =>
    if row.status = .cancelled then none
    else if ¬ (row.status = .recording ∨ row.status = .scheduled) then none
    else if exit.sigtermed && msLt (some now) (ms row.stopUtc) then none
    else if exit.sigtermed || exit.code = some 0 then some (.completed, none)
    else some (.failed, some exit.error)

/-- A child of the recorder, from its spawn until it leaves the map. -/
inductive Child
  /-- ffmpeg runs; `termed` says whether it has been asked to stop. -/
  | running (termed : Bool)
  /-- ffmpeg has exited, and `finalize` has not read the row. -/
  | exited (exit : Exit)
  /-- `finalize` has read the row and is about to write. -/
  | judged (status : Status) (error : Option String)
  /-- The outcome is written. -/
  | finalized
  deriving DecidableEq

def Child.term : Child → Child
  | .running _ => .running true
  | c => c

theorem Child.term_ne_running (c : Child) : c.term ≠ .running false := by
  cases c <;> simp [Child.term]

/-! ### The parties -/

inductive Pc
  /-- At the next row of its plan. -/
  | next
  /-- A child was started, and the row is about to be marked. -/
  | started (r : Recording) (path : String)
  /-- The start failed, and the row is about to be marked. -/
  | refused (r : Recording) (error : String)
  /-- Waiting for the child of a row to be gone. -/
  | stopping (r : Recording)
  /-- The child is gone, and the row is about to be read again. -/
  | stopped (r : Recording)
  /-- The row was still `recording`, and is about to be marked. -/
  | unfinished (r : Recording)
  deriving DecidableEq

/-- The scheduler: its ticks do not overlap. -/
inductive Scheduler
  | idle
  /-- A tick has selected the active rows. -/
  | selected (now : ℤ) (rows : List Recording)
  /-- A tick works on what is left of its plan; `running` are the recorder's children
  when it was made. -/
  | ticking (running : String → Bool) (plan : Plan) (pc : Pc)

inductive Answer
  | cancelled
  | deleted
  | notFound
  | failed
  deriving DecidableEq

/-- Where a delete request stands; `rec` is the row as the route first read it. -/
inductive Request
  | idle
  | read (id : String) (rec : Recording)
  /-- The row was read again, and was active. -/
  | cancelling (id : String) (rec : Recording)
  /-- The row was read again, and was not active. -/
  | deleting (id : String) (rec : Recording)
  | cancelled (id : String) (rec : Recording)
  | deleted (id : String) (rec : Recording)
  | returned (id : String) (answer : Answer)
  deriving DecidableEq

/-- **The table and all that write its statuses.** -/
structure World where
  rows : List Recording
  children : String → Option Child
  scheduler : Scheduler
  requests : ℕ → Request
  /-- The stops that delete requests have spawned and that have not run. -/
  stops : List String

def World.init (rows : List Recording) : World where
  rows := rows
  children := fun _ => none
  scheduler := .idle
  requests := fun _ => .idle
  stops := []

inductive Action
  | tickSelect (now : ℤ)
  | tickPlan
  /-- The recorder is asked to start the next row, and answers. -/
  | tickStart (answer : Except String (Option String))
  | tickMark
  | tickFail
  | tickStop
  | tickStopped
  | tickReread
  | tickComplete
  | tickMiss
  | tickEnd
  /-- A statement of the tick fails, and the tick with it. -/
  | tickAbort
  | childExit (id : String) (exit : Exit)
  | finalizeRead (id : String) (now : ℤ)
  | finalizeWrite (id : String)
  /-- A statement of `finalize` fails. -/
  | finalizeFail (id : String)
  | childRemove (id : String)
  /-- The service shuts down, and asks every child to stop. -/
  | stopAll
  | deleteRead (q : ℕ) (id : String)
  | deleteReread (q : ℕ)
  | deleteWrite (q : ℕ)
  | deleteReturn (q : ℕ)
  /-- A statement of request `q` fails. -/
  | deleteFail (q : ℕ)
  /-- A stop that a delete request spawned runs. -/
  | runStop (id : String)

namespace World

variable (ms : String → Option ℤ) (w : World)

/-- `mark_status`. -/
def mark (id : String) (status : Status) (filePath error : Option String) : World :=
  { w with rows := updateRecording w.rows id (markStatus status filePath error) }

/-- A child enters the map, changes or leaves it. -/
def setChild (id : String) (c : Option Child) : World :=
  { w with children := Function.update w.children id c }

def setRequest (q : ℕ) (r : Request) : World :=
  { w with requests := Function.update w.requests q r }

/-! ### The tick -/

def tickSelect (now : ℤ) : Option World :=
  match w.scheduler with
  | .idle => some { w with scheduler := .selected now (activeRecordings w.rows) }
  | _ => none

def tickPlan : Option World :=
  match w.scheduler with
  | .selected now rows => some { w with
      scheduler := .ticking (fun id => (w.children id).isSome) (planTransitions ms now rows) .next }
  | _ => none

def tickStart (answer : Except String (Option String)) : Option World :=
  match w.scheduler with
  | .ticking running ⟨r :: toStart, toStop, toMiss⟩ .next =>
    let go (pc : Pc) : Scheduler := .ticking running ⟨toStart, toStop, toMiss⟩ pc
    if running r.id then some { w with scheduler := go .next }
    else match answer with
      | .ok none => some { w with scheduler := go .next }
      | .ok (some path) =>
        some { w.setChild r.id (some (.running false)) with scheduler := go (.started r path) }
      | .error e => some { w with scheduler := go (.refused r e) }
  | _ => none

/-- The one write that looks at the status: `AND status IN ('scheduled','recording')`. -/
def tickMark : Option World :=
  match w.scheduler with
  | .ticking running plan (.started r path) => some { w with
      rows := updateRecording w.rows r.id fun row =>
        if row.status.Active then
          { row with status := .recording, filePath := some path, error := none }
        else row
      scheduler := .ticking running plan .next }
  | _ => none

def tickFail : Option World :=
  match w.scheduler with
  | .ticking running plan (.refused r e) =>
    some { w.mark r.id .failed none (some e) with scheduler := .ticking running plan .next }
  | _ => none

def tickStop : Option World :=
  match w.scheduler with
  | .ticking running ⟨[], r :: toStop, toMiss⟩ .next =>
    match w.children r.id with
    | some c => some { w.setChild r.id (some c.term) with
        scheduler := .ticking running ⟨[], toStop, toMiss⟩ (.stopping r) }
    | none => some { w with scheduler := .ticking running ⟨[], toStop, toMiss⟩ (.stopped r) }
  | _ => none

def tickStopped : Option World :=
  match w.scheduler with
  | .ticking running plan (.stopping r) =>
    if (w.children r.id).isSome then none
    else some { w with scheduler := .ticking running plan (.stopped r) }
  | _ => none

def tickReread : Option World :=
  match w.scheduler with
  | .ticking running plan (.stopped r) => some { w with
      scheduler := .ticking running plan
        (if (getRecording w.rows r.id).any (·.status = .recording) then .unfinished r
          else .next) }
  | _ => none

def tickComplete : Option World :=
  match w.scheduler with
  | .ticking running plan (.unfinished r) =>
    some { w.mark r.id .completed none none with scheduler := .ticking running plan .next }
  | _ => none

def tickMiss : Option World :=
  match w.scheduler with
  | .ticking running ⟨[], [], r :: toMiss⟩ .next =>
    some { w.mark r.id .missed none none with scheduler := .ticking running ⟨[], [], toMiss⟩ .next }
  | _ => none

def tickEnd : Option World :=
  match w.scheduler with
  | .ticking _ ⟨[], [], []⟩ .next => some { w with scheduler := .idle }
  | _ => none

def tickAbort : Option World :=
  match w.scheduler with
  | .ticking _ _ (.started _ _) | .ticking _ _ (.refused _ _) | .ticking _ _ (.stopped _)
  | .ticking _ _ (.unfinished _) | .ticking _ ⟨[], [], _ :: _⟩ .next =>
    some { w with scheduler := .idle }
  | _ => none

/-! ### The recorder -/

/-- A child that was asked to stop may be told of as one that was not: both may be ready. -/
def childExit (id : String) (exit : Exit) : Option World :=
  match w.children id with
  | some (.running termed) =>
    if exit.termed && !termed then none else some (w.setChild id (some (.exited exit)))
  | _ => none

def finalizeRead (id : String) (now : ℤ) : Option World :=
  match w.children id with
  | some (.exited exit) => some (w.setChild id (some
      (match verdict ms now exit (getRecording w.rows id) with
        | some (status, error) => .judged status error
        | none => .finalized)))
  | _ => none

def finalizeWrite (id : String) : Option World :=
  match w.children id with
  | some (.judged status error) =>
    some ((w.mark id status none error).setChild id (some .finalized))
  | _ => none

def finalizeFail (id : String) : Option World :=
  match w.children id with
  | some (.exited _) | some (.judged _ _) => some (w.setChild id (some .finalized))
  | _ => none

def childRemove (id : String) : Option World :=
  match w.children id with
  | some .finalized => some (w.setChild id none)
  | _ => none

def stopAll : Option World :=
  some { w with children := fun id => (w.children id).map Child.term }

/-! ### The delete route -/

def deleteRead (q : ℕ) (id : String) : Option World :=
  match w.requests q with
  | .idle => some (w.setRequest q
      (match getRecording w.rows id with
        | some rec => .read id rec
        | none => .returned id .notFound))
  | _ => none

/-- The read of `cancel`. -/
def deleteReread (q : ℕ) : Option World :=
  match w.requests q with
  | .read id rec => some (w.setRequest q
      (match getRecording w.rows id with
        | some row => if row.status.Active then .cancelling id rec else .deleting id rec
        | none => .returned id .notFound))
  | _ => none

/-- The write of `cancel`. -/
def deleteWrite (q : ℕ) : Option World :=
  match w.requests q with
  | .cancelling id rec => some { w.setRequest q (.cancelled id rec) with
      rows := updateRecording w.rows id fun row => { row with status := .cancelled } }
  | .deleting id rec => some { w.setRequest q (.deleted id rec) with
      rows := deleteRecording w.rows id }
  | _ => none

/-- A stop is spawned if the row was `recording` when it was first read. -/
def deleteReturn (q : ℕ) : Option World :=
  match w.requests q with
  | .cancelled id rec => some { w.setRequest q (.returned id .cancelled) with
      stops := if rec.status = .recording then id :: w.stops else w.stops }
  | .deleted id rec => some { w.setRequest q (.returned id .deleted) with
      stops := if rec.status = .recording then id :: w.stops else w.stops }
  | _ => none

def deleteFail (q : ℕ) : Option World :=
  match w.requests q with
  | .read id _ | .cancelling id _ | .deleting id _ => some (w.setRequest q (.returned id .failed))
  | _ => none

def runStop (id : String) : Option World :=
  if id ∈ w.stops then
    some { w.setChild id ((w.children id).map Child.term) with stops := w.stops.erase id }
  else none

end World

/-- **One step of the table and its writers.** -/
def step (ms : String → Option ℤ) (w : World) : Action → Option World
  | .tickSelect now => w.tickSelect now
  | .tickPlan => w.tickPlan ms
  | .tickStart answer => w.tickStart answer
  | .tickMark => w.tickMark
  | .tickFail => w.tickFail
  | .tickStop => w.tickStop
  | .tickStopped => w.tickStopped
  | .tickReread => w.tickReread
  | .tickComplete => w.tickComplete
  | .tickMiss => w.tickMiss
  | .tickEnd => w.tickEnd
  | .tickAbort => w.tickAbort
  | .childExit id exit => w.childExit id exit
  | .finalizeRead id now => w.finalizeRead ms id now
  | .finalizeWrite id => w.finalizeWrite id
  | .finalizeFail id => w.finalizeFail id
  | .childRemove id => w.childRemove id
  | .stopAll => w.stopAll
  | .deleteRead q id => w.deleteRead q id
  | .deleteReread q => w.deleteReread q
  | .deleteWrite q => w.deleteWrite q
  | .deleteReturn q => w.deleteReturn q
  | .deleteFail q => w.deleteFail q
  | .runStop id => w.runStop id

/-! ### The property and its condition -/

/-- **An outcome is the last word**: a row with one keeps it as long as the row is there. -/
def Absorbing (rows rows' : List Recording) : Prop :=
  ∀ id r, getRecording rows id = some r → ¬ r.status.Active →
    ∀ r', getRecording rows' id = some r' → r'.status = r.status

/-- **A cancel wins**: once it has returned, a child that still runs has been asked to stop
or is about to be. -/
def CancelWins (w : World) : Prop :=
  ∀ q id, w.requests q = .returned id .cancelled →
    w.children id = some (.running false) → id ∈ w.stops

/-- The row whose status an action writes without looking at it. -/
def overwrites (w : World) : Action → Option String
  | .tickFail => match w.scheduler with
    | .ticking _ _ (.refused r _) => some r.id
    | _ => none
  | .tickComplete => match w.scheduler with
    | .ticking _ _ (.unfinished r) => some r.id
    | _ => none
  | .tickMiss => match w.scheduler with
    | .ticking _ ⟨_, _, r :: _⟩ _ => some r.id
    | _ => none
  | .finalizeWrite id => some id
  | .deleteWrite q => match w.requests q with
    | .cancelling id _ => some id
    | _ => none
  | _ => none

def starts (w : World) : Action → Option String
  | .tickStart (.ok (some _)) => match w.scheduler with
    | .ticking running ⟨r :: _, _, _⟩ _ => if running r.id then none else some r.id
    | _ => none
  | _ => none

/-- The row that an action cancels, and the row as its request first read it. -/
def cancels (w : World) : Action → Option (String × Recording)
  | .deleteWrite q => match w.requests q with
    | .cancelling id rec => some (id, rec)
    | _ => none
  | _ => none

/-- **The condition**: a status is overwritten only while the row is active or gone, a child is
started only for a row that is active, and a row is cancelled with a child running only if it
was `recording` when the request first read it. -/
def outcomesKept (w : World) (a : Action) : Prop :=
  ((overwrites w a).all fun id => (getRecording w.rows id).all (·.status.Active)) = true ∧
  ((starts w a).all fun id => (getRecording w.rows id).any (·.status.Active)) = true ∧
  ((cancels w a).all fun c => w.children c.1 ≠ some (.running false) || c.2.status = .recording)
    = true

instance (w : World) (a : Action) : Decidable (outcomesKept w a) :=
  inferInstanceAs (Decidable (_ ∧ _ ∧ _))

/-! ### What a step can do -/

section effects

open World

/-- **What a step can do.** -/
inductive Move (ms : String → Option ℤ) (w : World) : Action → World → Prop
  | select {now : ℤ} :
      Move ms w (.tickSelect now) { w with scheduler := .selected now (activeRecordings w.rows) }
  | plan {now : ℤ} {rows : List Recording} : w.scheduler = .selected now rows →
      Move ms w .tickPlan { w with
        scheduler := .ticking (fun id => (w.children id).isSome) (planTransitions ms now rows)
          .next }
  /-- The next row is not started, or not yet. -/
  | skip {running : String → Bool} {plan plan' : Plan} {r : Recording} {pc pc' : Pc}
      {answer : Except String (Option String)} : w.scheduler = .ticking running plan pc →
      plan.toStart = r :: plan'.toStart →
      Move ms w (.tickStart answer) { w with scheduler := .ticking running plan' pc' }
  | start {running : String → Bool} {r : Recording} {toStart toStop toMiss : List Recording}
      {path : String} : w.scheduler = .ticking running ⟨r :: toStart, toStop, toMiss⟩ .next →
      ¬ running r.id = true →
      Move ms w (.tickStart (.ok (some path))) { w.setChild r.id (some (.running false)) with
        scheduler := .ticking running ⟨toStart, toStop, toMiss⟩ (.started r path) }
  | mark {running : String → Bool} {plan : Plan} {r : Recording} {path : String} :
      w.scheduler = .ticking running plan (.started r path) →
      Move ms w .tickMark { w with
        rows := updateRecording w.rows r.id fun row =>
          if row.status.Active then
            { row with status := .recording, filePath := some path, error := none }
          else row
        scheduler := .ticking running plan .next }
  /-- A status is written without a look at it. -/
  | outcome {a : Action} {running : String → Bool} {plan plan' : Plan} {pc : Pc} {id : String}
      {status : Status} {path error : Option String} :
      w.scheduler = .ticking running plan pc → plan.toStart = plan'.toStart →
      overwrites w a = some id → starts w a = none →
      Move ms w a { w.mark id status path error with scheduler := .ticking running plan' .next }
  | stop {running : String → Bool} {plan plan' : Plan} {pc pc' : Pc} {id : String} {c : Child} :
      w.scheduler = .ticking running plan pc → plan.toStart = plan'.toStart →
      w.children id = some c →
      Move ms w .tickStop { w.setChild id (some c.term) with
        scheduler := .ticking running plan' pc' }
  | advance {a : Action} {running : String → Bool} {plan plan' : Plan} {pc pc' : Pc} :
      w.scheduler = .ticking running plan pc → plan.toStart = plan'.toStart →
      starts w a = none → Move ms w a { w with scheduler := .ticking running plan' pc' }
  | idle {a : Action} : Move ms w a { w with scheduler := .idle }
  | child {a : Action} {id : String} {c c' : Child} : w.children id = some c →
      some c' ≠ some (.running false) → starts w a = none → Move ms w a (w.setChild id (some c'))
  | remove {id : String} {c : Child} : w.children id = some c →
      Move ms w (.childRemove id) (w.setChild id none)
  | judge {id : String} {c : Child} {status : Status} {error : Option String} :
      w.children id = some c →
      Move ms w (.finalizeWrite id)
        ((w.mark id status none error).setChild id (some .finalized))
  | stopAll : Move ms w .stopAll { w with children := fun id => (w.children id).map Child.term }
  /-- A request moves on, and neither cancels nor returns from a cancel. -/
  | request {a : Action} {q : ℕ} {r : Request} : (∀ id rec, r ≠ .cancelled id rec) →
      (∀ id, r ≠ .returned id .cancelled) → starts w a = none → Move ms w a (w.setRequest q r)
  | cancel {q : ℕ} {id : String} {rec : Recording} : w.requests q = .cancelling id rec →
      Move ms w (.deleteWrite q) { w.setRequest q (.cancelled id rec) with
        rows := updateRecording w.rows id fun row => { row with status := .cancelled } }
  | delete {q : ℕ} {id : String} {rec : Recording} :
      Move ms w (.deleteWrite q) { w.setRequest q (.deleted id rec) with
        rows := deleteRecording w.rows id }
  | returns {q : ℕ} {id : String} {rec : Recording} {answer : Answer} :
      (answer = .cancelled → w.requests q = .cancelled id rec) →
      Move ms w (.deleteReturn q) { w.setRequest q (.returned id answer) with
        stops := if rec.status = .recording then id :: w.stops else w.stops }
  | runStop {id : String} :
      Move ms w (.runStop id) { w.setChild id ((w.children id).map Child.term) with
        stops := w.stops.erase id }

variable {ms : String → Option ℤ} {w w' : World} {a : Action}

theorem move_of_step (h : step ms w a = some w') : Move ms w a w' := by
  cases a with
  | tickSelect now =>
    simp only [step, tickSelect] at h
    split at h <;> cases h
    exact .select
  | tickPlan =>
    simp only [step, tickPlan] at h
    split at h <;> cases h
    exact .plan ‹_›
  | tickStart answer =>
    simp only [step, tickStart] at h
    split at h
    · next hat =>
      split at h
      · cases h
        exact .skip hat rfl
      · next hnot =>
        split at h <;> cases h
        · exact .skip hat rfl
        · exact .start hat hnot
        · exact .skip hat rfl
    · cases h
  | tickMark =>
    simp only [step, tickMark] at h
    split at h <;> cases h
    exact .mark ‹_›
  | tickFail =>
    simp only [step, tickFail] at h
    split at h
    · next hat =>
      cases h
      exact .outcome hat rfl (by simp only [overwrites, hat]) rfl
    · cases h
  | tickStop =>
    simp only [step, tickStop] at h
    split at h
    · next hat =>
      split at h <;> cases h
      · exact .stop hat rfl ‹_›
      · exact .advance hat rfl rfl
    · cases h
  | tickStopped =>
    simp only [step, tickStopped] at h
    split at h
    · next hat =>
      split at h <;> cases h
      exact .advance hat rfl rfl
    · cases h
  | tickReread =>
    simp only [step, tickReread] at h
    split at h <;> cases h
    exact .advance ‹_› rfl rfl
  | tickComplete =>
    simp only [step, tickComplete] at h
    split at h
    · next hat =>
      cases h
      exact .outcome hat rfl (by simp only [overwrites, hat]) rfl
    · cases h
  | tickMiss =>
    simp only [step, tickMiss] at h
    split at h
    · next hat =>
      cases h
      exact .outcome hat rfl (by simp only [overwrites, hat]) rfl
    · cases h
  | tickEnd | tickAbort =>
    simp only [step, tickEnd, tickAbort] at h
    split at h <;> cases h <;> exact .idle
  | childExit id exit =>
    simp only [step, childExit] at h
    split at h
    · split at h <;> cases h
      exact .child ‹_› (by simp) rfl
    · cases h
  | finalizeRead id now =>
    simp only [step, finalizeRead] at h
    split at h <;> cases h
    exact .child ‹_› (by split <;> simp) rfl
  | finalizeWrite id =>
    simp only [step, finalizeWrite] at h
    split at h <;> cases h
    exact .judge ‹_›
  | finalizeFail id =>
    simp only [step, finalizeFail] at h
    split at h <;> cases h <;> exact .child ‹_› (by simp) rfl
  | childRemove id =>
    simp only [step, childRemove] at h
    split at h <;> cases h
    exact .remove ‹_›
  | stopAll =>
    cases h
    exact .stopAll
  | deleteRead q id =>
    simp only [step, deleteRead] at h
    split at h <;> cases h
    split <;> exact .request (by simp) (by simp) rfl
  | deleteReread q =>
    simp only [step, deleteReread] at h
    split at h <;> cases h
    split
    · split <;> exact .request (by simp) (by simp) rfl
    · exact .request (by simp) (by simp) rfl
  | deleteWrite q =>
    simp only [step, deleteWrite] at h
    split at h <;> cases h
    · exact .cancel ‹_›
    · exact .delete
  | deleteReturn q =>
    simp only [step, deleteReturn] at h
    split at h <;> cases h
    · exact .returns fun _ => ‹_›
    · exact .returns nofun
  | deleteFail q =>
    simp only [step, deleteFail] at h
    split at h <;> cases h <;> exact .request (by simp) (by simp) rfl
  | runStop id =>
    simp only [step, runStop] at h
    split at h <;> cases h
    exact .runStop

/-- **What a step can do to the table**: overwrite a status, mark a row that is still active,
or delete a row. -/
theorem rows_cases (h : step ms w a = some w') :
    w'.rows = w.rows ∨
    (∃ id f, overwrites w a = some id ∧ (∀ r, (f r).id = r.id) ∧
      w'.rows = updateRecording w.rows id f) ∨
    (∃ id f, (∀ r, (f r).id = r.id) ∧ (∀ r, ¬ r.status.Active → f r = r) ∧
      w'.rows = updateRecording w.rows id f) ∨
    ∃ id, w'.rows = deleteRecording w.rows id := by
  cases move_of_step h with
  | mark =>
    refine Or.inr (Or.inr (Or.inl ⟨_, _, fun r => ?_, fun r hr => if_neg hr, rfl⟩))
    split <;> rfl
  | outcome _ _ hover _ => exact Or.inr (Or.inl ⟨_, markStatus _ _ _, hover, fun _ => rfl, rfl⟩)
  | judge => exact Or.inr (Or.inl ⟨_, markStatus _ _ _, rfl, fun _ => rfl, rfl⟩)
  | cancel hat =>
    exact Or.inr (Or.inl ⟨_, fun row => { row with status := .cancelled },
      by simp only [overwrites, hat], fun _ => rfl, rfl⟩)
  | delete => exact Or.inr (Or.inr (Or.inr ⟨_, rfl⟩))
  | _ => exact Or.inl rfl

theorem running_of_setChild {v : World} (hv : v.children = w.children) {id i : String}
    {c : Option Child} (hc : c ≠ some (.running false))
    (h : (v.setChild i c).children id = some (.running false)) :
    w.children id = some (.running false) := by
  simp only [setChild, Function.update_apply, hv] at h
  split at h
  · exact absurd h hc
  · exact h

theorem map_term_ne_running (c : Option Child) : c.map Child.term ≠ some (.running false) := by
  rintro hc
  obtain ⟨c, -, hc⟩ := Option.map_eq_some_iff.mp hc
  exact c.term_ne_running hc

/-- **What a step can do to the children**: one that runs and has not been asked to stop ran
before, or has just been started. -/
theorem running_cases (h : step ms w a = some w') {id : String}
    (hid : w'.children id = some (.running false)) :
    w.children id = some (.running false) ∨ starts w a = some id := by
  cases move_of_step h with
  | @start _ r _ _ _ _ hat hnot =>
    rcases eq_or_ne id r.id with rfl | hne
    · exact Or.inr (by simp [starts, hat, hnot])
    · exact Or.inl (by simpa [setChild, hne] using hid)
  | @stop _ _ _ _ _ _ c =>
    exact Or.inl (running_of_setChild (v := w) rfl (map_term_ne_running (some c)) hid)
  | child _ hc _ => exact Or.inl (running_of_setChild (v := w) rfl hc hid)
  | remove => exact Or.inl (running_of_setChild (v := w) (c := none) rfl nofun hid)
  | judge => 
    exact Or.inl (running_of_setChild (v := w.mark _ _ _ _) (c := some .finalized) rfl nofun hid)
  | stopAll => exact absurd hid (map_term_ne_running _)
  | runStop => exact Or.inl (running_of_setChild (v := w) rfl (map_term_ne_running _) hid)
  | _ => exact Or.inl hid

theorem requests_of_setRequest {q q' : ℕ} {r target : Request} (hr : r ≠ target)
    (h : (w.setRequest q' r).requests q = target) : w.requests q = target := by
  simp only [setRequest, Function.update_apply] at h
  split at h
  · exact absurd h hr
  · exact h

/-- What a step can do to a request that has cancelled: bring it there, by the write of
`cancel`, which leaves the children alone. -/
theorem cancelled_cases (h : step ms w a = some w') {q : ℕ} {id : String} {rec : Recording}
    (hq : w'.requests q = .cancelled id rec) :
    w.requests q = .cancelled id rec ∨
      cancels w a = some (id, rec) ∧ w'.children = w.children ∧
        w'.rows = updateRecording w.rows id fun row => { row with status := .cancelled } := by
  cases move_of_step h with
  | request hne _ _ => exact Or.inl (requests_of_setRequest (hne id rec) hq)
  | @cancel q' id' rec' hat =>
    rcases eq_or_ne q q' with rfl | hne
    · obtain ⟨rfl, rfl⟩ : id' = id ∧ rec' = rec := by simpa [setRequest] using hq
      exact Or.inr ⟨by simp only [cancels, hat], rfl, rfl⟩
    · exact Or.inl (by simpa [setRequest, hne] using hq)
  | delete => exact Or.inl (requests_of_setRequest (r := .deleted _ _) nofun hq)
  | returns => exact Or.inl (requests_of_setRequest (r := .returned _ _) nofun hq)
  | _ => exact Or.inl hq

/-- What a step can do to a request that has returned from a cancel: bring it there, and then
a stop is spawned if the row was `recording` when it was first read. -/
theorem returned_cases (h : step ms w a = some w') {q : ℕ} {id : String}
    (hq : w'.requests q = .returned id .cancelled) :
    w.requests q = .returned id .cancelled ∨
      ∃ rec, w.requests q = .cancelled id rec ∧ w'.children = w.children ∧ w'.rows = w.rows ∧
        (rec.status = .recording → id ∈ w'.stops) := by
  cases move_of_step h with
  | request _ hne _ => exact Or.inl (requests_of_setRequest (hne id) hq)
  | cancel => exact Or.inl (requests_of_setRequest (r := .cancelled _ _) nofun hq)
  | delete => exact Or.inl (requests_of_setRequest (r := .deleted _ _) nofun hq)
  | @returns q' id' rec answer hwas =>
    rcases eq_or_ne q q' with rfl | hne
    · obtain ⟨rfl, rfl⟩ : id' = id ∧ answer = .cancelled := by simpa [setRequest] using hq
      exact Or.inr ⟨rec, hwas rfl, rfl, rfl, fun hrec => by simp [hrec]⟩
    · exact Or.inl (by simpa [setRequest, hne] using hq)
  | _ => exact Or.inl hq

theorem stops_cases (h : step ms w a = some w') {id : String} (hid : id ∈ w.stops) :
    id ∈ w'.stops ∨ w'.children id ≠ some (.running false) := by
  cases move_of_step h with
  | returns =>
    refine Or.inl ?_
    simp only
    split <;> simp [hid]
  | @runStop id' =>
    rcases eq_or_ne id id' with rfl | hne
    · refine Or.inr ?_
      simpa only [setChild, Function.update_self] using map_term_ne_running (w.children id)
    · exact Or.inl ((List.mem_erase_of_ne hne).mpr hid)
  | _ => exact Or.inl hid

/-- A child enters the map only where one is started. -/
theorem children_none_cases (h : step ms w a = some w') {id : String}
    (hid : w.children id = none) : w'.children id = none ∨ starts w a = some id := by
  -- a child that is moved is in the map, and so another
  have hset : ∀ {i : String} {c : Child} (c' : Option Child), w.children i = some c →
      Function.update w.children i c' id = none := by
    intro i c c' hc
    have hne : id ≠ i := by
      rintro rfl
      rw [hid] at hc
      cases hc
    rw [Function.update_of_ne hne, hid]
  cases move_of_step h with
  | @start _ r _ _ _ _ hat hnot =>
    rcases eq_or_ne id r.id with rfl | hne
    · exact Or.inr (by simp [starts, hat, hnot])
    · exact Or.inl (by simpa [setChild, hne] using hid)
  | stop _ _ hc => exact Or.inl (hset _ hc)
  | child hc _ _ => exact Or.inl (hset _ hc)
  | remove hc => exact Or.inl (hset _ hc)
  | judge hc => exact Or.inl (hset _ hc)
  | stopAll => exact Or.inl (by simp [hid])
  | @runStop i =>
    refine Or.inl ?_
    rcases eq_or_ne id i with rfl | hne
    · simp [setChild, hid]
    · simpa [setChild, hne] using hid
  | _ => exact Or.inl hid

/-- What a step can do to the rows a tick has still to start: make them, or take the first. -/
theorem ticking_cases (h : step ms w a = some w') {running : String → Bool} {plan : Plan} {pc : Pc}
    (hat : w'.scheduler = .ticking running plan pc) :
    (∃ plan' pc', w.scheduler = .ticking running plan' pc' ∧
      (starts w a = none ∧ plan'.toStart = plan.toStart ∨
        ∃ r, plan'.toStart = r :: plan.toStart)) ∨
    ∃ now rows, w.scheduler = .selected now rows ∧ running = (fun id => (w.children id).isSome) ∧
      plan = planTransitions ms now rows ∧ w'.children = w.children := by
  cases move_of_step h with
  | select => cases hat
  | idle => cases hat
  | plan hsel =>
    obtain ⟨rfl, rfl, rfl⟩ := Scheduler.ticking.inj hat
    exact Or.inr ⟨_, _, hsel, rfl, rfl, rfl⟩
  | skip hwas hplan =>
    obtain ⟨rfl, rfl, rfl⟩ := Scheduler.ticking.inj hat
    exact Or.inl ⟨_, _, hwas, Or.inr ⟨_, hplan⟩⟩
  | start hwas _ =>
    obtain ⟨rfl, rfl, rfl⟩ := Scheduler.ticking.inj hat
    exact Or.inl ⟨_, _, hwas, Or.inr ⟨_, rfl⟩⟩
  | mark hwas =>
    obtain ⟨rfl, rfl, rfl⟩ := Scheduler.ticking.inj hat
    exact Or.inl ⟨_, _, hwas, Or.inl ⟨rfl, rfl⟩⟩
  | outcome hwas hplan _ hnone =>
    obtain ⟨rfl, rfl, rfl⟩ := Scheduler.ticking.inj hat
    exact Or.inl ⟨_, _, hwas, Or.inl ⟨hnone, hplan⟩⟩
  | stop hwas hplan _ =>
    obtain ⟨rfl, rfl, rfl⟩ := Scheduler.ticking.inj hat
    exact Or.inl ⟨_, _, hwas, Or.inl ⟨rfl, hplan⟩⟩
  | advance hwas hplan hnone =>
    obtain ⟨rfl, rfl, rfl⟩ := Scheduler.ticking.inj hat
    exact Or.inl ⟨_, _, hwas, Or.inl ⟨hnone, hplan⟩⟩
  | child _ _ hnone => exact Or.inl ⟨plan, pc, hat, Or.inl ⟨hnone, rfl⟩⟩
  | request _ _ hnone => exact Or.inl ⟨plan, pc, hat, Or.inl ⟨hnone, rfl⟩⟩
  | remove | judge | stopAll | cancel | delete | returns | runStop =>
    exact Or.inl ⟨plan, pc, hat, Or.inl ⟨rfl, rfl⟩⟩

/-- What a step can do to the rows a tick has selected: select the active ones. -/
theorem selected_cases (h : step ms w a = some w') {now : ℤ} {rows : List Recording}
    (hat : w'.scheduler = .selected now rows) :
    w.scheduler = .selected now rows ∨ rows = activeRecordings w.rows := by
  cases move_of_step h with
  | select => exact Or.inr (Scheduler.selected.inj hat).2.symm
  | child | remove | judge | stopAll | request | cancel | delete | returns | runStop =>
    exact Or.inl hat
  | _ => cases hat

end effects

/-! ### Runs -/

section runs

variable {ms : String → Option ℤ} {w w' : World} {a : Action}

/-- **A step that meets the condition leaves a row alone that has an outcome**, or deletes it. -/
theorem row_of_step (hguard : outcomesKept w a) (h : step ms w a = some w') {id : String}
    {r' : Recording} (hr' : getRecording w'.rows id = some r') :
    ∃ r, getRecording w.rows id = some r ∧ (¬ r.status.Active → r' = r) := by
  rcases rows_cases h with hrows | ⟨i, f, hover, hf, hrows⟩ | ⟨i, f, hf, hkeep, hrows⟩ | ⟨i, hrows⟩
  · exact ⟨r', hrows ▸ hr', fun _ => rfl⟩
  · rw [hrows, getRecording_updateRecording hf] at hr'
    split at hr'
    · next hid =>
      subst hid
      obtain ⟨r, hr, rfl⟩ := Option.map_eq_some_iff.mp hr'
      have hactive := hguard.1
      rw [hover] at hactive
      exact ⟨r, hr, fun hnot => absurd (by simpa [hr] using hactive) hnot⟩
    · exact ⟨r', hr', fun _ => rfl⟩
  · rw [hrows, getRecording_updateRecording hf] at hr'
    split at hr'
    · obtain ⟨r, hr, rfl⟩ := Option.map_eq_some_iff.mp hr'
      exact ⟨r, hr, hkeep r⟩
    · exact ⟨r', hr', fun _ => rfl⟩
  · rw [hrows, getRecording_deleteRecording] at hr'
    split at hr'
    · cases hr'
    · exact ⟨r', hr', fun _ => rfl⟩

def Over (w : World) (id : String) : Prop :=
  ∀ r, getRecording w.rows id = some r → ¬ r.status.Active

theorem Over.step {id : String} (hover : Over w id) (hguard : outcomesKept w a)
    (h : step ms w a = some w') : Over w' id := by
  intro r' hr'
  obtain ⟨r, hr, hkeep⟩ := row_of_step hguard h hr'
  rw [hkeep (hover r hr)]
  exact hover r hr

theorem Over.not_starts {id : String} (hover : Over w id) (hguard : outcomesKept w a) :
    starts w a ≠ some id := by
  intro hstart
  have hactive := hguard.2.1
  rw [hstart, Option.all_some, Option.any_eq_true] at hactive
  obtain ⟨r, hr, ha⟩ := hactive
  exact hover r hr (by simpa using ha)

theorem over_of_cancelled {id : String}
    (h : w'.rows = updateRecording w.rows id fun row => { row with status := .cancelled }) :
    Over w' id := by
  intro r hr
  rw [h, getRecording_updateRecording (f := fun row => { row with status := .cancelled })
    (fun _ => rfl), if_pos rfl] at hr
  obtain ⟨row, -, rfl⟩ := Option.map_eq_some_iff.mp hr
  exact fun hactive => hactive

/-- **The invariant of the cancels**: where a request has cancelled a row, the row is over, and
a child that runs without having been asked to stop will be. -/
structure CancelInv (w : World) : Prop where
  cancelled : ∀ q id rec, w.requests q = .cancelled id rec →
    Over w id ∧ (w.children id = some (.running false) → rec.status = .recording)
  returned : ∀ q id, w.requests q = .returned id .cancelled →
    Over w id ∧ (w.children id = some (.running false) → id ∈ w.stops)

theorem CancelInv.init (rows : List Recording) : CancelInv (World.init rows) where
  cancelled _ _ _ h := by cases h
  returned _ _ h := by cases h

theorem CancelInv.step (hinv : CancelInv w) (hguard : outcomesKept w a)
    (h : step ms w a = some w') : CancelInv w' where
  cancelled q id rec hq := by
    rcases cancelled_cases h hq with hold | ⟨hcancel, hchildren, hrows⟩
    · obtain ⟨hover, hrec⟩ := hinv.cancelled q id rec hold
      refine ⟨hover.step hguard h, fun hrun => ?_⟩
      rcases running_cases h hrun with hwas | hstart
      · exact hrec hwas
      · exact absurd hstart (hover.not_starts hguard)
    · refine ⟨over_of_cancelled hrows, fun hrun => ?_⟩
      have hcond := hguard.2.2
      rw [hcancel, Option.all_some] at hcond
      simpa [hchildren ▸ hrun] using hcond
  returned q id hq := by
    rcases returned_cases h hq with hold | ⟨rec, hold, hchildren, hrows, hstop⟩
    · obtain ⟨hover, hstop⟩ := hinv.returned q id hold
      refine ⟨hover.step hguard h, fun hrun => ?_⟩
      rcases running_cases h hrun with hwas | hstart
      · exact (stops_cases h (hstop hwas)).resolve_right (not_not.mpr hrun)
      · exact absurd hstart (hover.not_starts hguard)
    · obtain ⟨hover, hrec⟩ := hinv.cancelled q id rec hold
      exact ⟨hover.step hguard h, fun hrun => hstop (hrec (hchildren ▸ hrun))⟩

theorem absorbing_of_outcomesKept (h : Runs (step ms) outcomesKept w w') :
    Absorbing w.rows w'.rows := by
  refine Runs.invariant (P := fun v => Absorbing w.rows v.rows) h ?_ ?_
  · intro id r hr _ r' hr'
    rw [hr] at hr'
    rw [Option.some.inj hr']
  · intro v a v' hv hguard hstep id r hr hnot r' hr'
    obtain ⟨r'', hr'', hkeep⟩ := row_of_step hguard hstep hr'
    have hstatus := hv id r hr hnot r'' hr''
    rw [hkeep (hstatus ▸ hnot), hstatus]

/-- **The invariant of the starts**: the rows a tick has still to start are of different ids,
and those that its `running` does not name have no child. -/
structure StartInv (w : World) : Prop where
  rows : (w.rows.map (·.id)).Nodup
  selected : ∀ now rows, w.scheduler = .selected now rows → (rows.map (·.id)).Nodup
  ticking : ∀ running plan pc, w.scheduler = .ticking running plan pc →
    (plan.toStart.map (·.id)).Nodup ∧
      ∀ r ∈ plan.toStart, running r.id = false → w.children r.id = none

/-- A step keeps the ids of the table, or takes some away. -/
theorem ids_of_step (h : step ms w a = some w') :
    (w'.rows.map (·.id)).Sublist (w.rows.map (·.id)) := by
  have hupdate : ∀ id f, (∀ r : Recording, (f r).id = r.id) →
      (updateRecording w.rows id f).map (·.id) = w.rows.map (·.id) := by
    intro id f hf
    simp only [updateRecording, List.map_map]
    refine List.map_congr_left fun r _ => ?_
    by_cases hr : r.id = id <;> simp [hr, hf]
  rcases rows_cases h with hrows | ⟨id, f, -, hf, hrows⟩ | ⟨id, f, hf, -, hrows⟩ | ⟨id, hrows⟩
  · rw [hrows]
  · rw [hrows, hupdate id f hf]
  · rw [hrows, hupdate id f hf]
  · rw [hrows]
    exact List.filter_sublist.map _

/-- What a start takes is the first of the rows still to start. -/
theorem ticking_of_starts {id : String} (h : starts w a = some id) :
    ∃ running plan pc r rest, w.scheduler = .ticking running plan pc ∧ plan.toStart = r :: rest ∧
      r.id = id ∧ running r.id = false := by
  simp only [starts] at h
  split at h
  · split at h
    · next hat =>
      split at h
      · cases h
      · next hnot =>
        exact ⟨_, _, _, _, _, hat, rfl, Option.some.inj h, by simpa using hnot⟩
    · cases h
  · cases h

theorem StartInv.step (hinv : StartInv w) (h : step ms w a = some w') : StartInv w' where
  rows := hinv.rows.sublist (ids_of_step h)
  selected now rows hsel := by
    rcases selected_cases h hsel with hwas | rfl
    · exact hinv.selected now rows hwas
    · refine ((List.perm_insertionSort _ _).map _).nodup_iff.mpr ?_
      exact hinv.rows.sublist (List.filter_sublist.map _)
  ticking running plan pc hat := by
    rcases ticking_cases h hat with
      ⟨plan', pc', hwas, hplan⟩ | ⟨now, rows, hsel, rfl, rfl, hchildren⟩
    · obtain ⟨hnodup, hfree⟩ := hinv.ticking running plan' pc' hwas
      rcases hplan with ⟨hnone, hplan⟩ | ⟨r₀, hplan⟩
      · rw [← hplan]
        refine ⟨hnodup, fun r hr hnot => ?_⟩
        refine (children_none_cases h (hfree r hr hnot)).resolve_right fun hstart => ?_
        rw [hnone] at hstart
        cases hstart
      · rw [hplan, List.map_cons, List.nodup_cons] at hnodup
        refine ⟨hnodup.2, fun r hr hnot => ?_⟩
        have hmem : r ∈ plan'.toStart := by rw [hplan]; exact List.mem_cons_of_mem _ hr
        refine (children_none_cases h (hfree r hmem hnot)).resolve_right fun hstart => ?_
        -- what has been started is the first of the rows, and `r` is another
        obtain ⟨_, _, _, r₁, rest, hat', hplan', hid, -⟩ := ticking_of_starts hstart
        obtain ⟨-, rfl, -⟩ := Scheduler.ticking.inj (hwas.symm.trans hat')
        obtain ⟨rfl, -⟩ := List.cons.inj (hplan.symm.trans hplan')
        exact hnodup.1 (hid ▸ List.mem_map_of_mem hr)
    · have hsub : ((planTransitions ms now rows).toStart.map (·.id)).Sublist (rows.map (·.id)) :=
        List.filter_sublist.map _
      refine ⟨(hinv.selected now rows hsel).sublist hsub, fun r _ hnot => ?_⟩
      rw [hchildren]
      simpa using hnot

/-- **A child is never started over another**: where a tick starts one, the map has no entry
of its id, in every state that a run from boot reaches. -/
theorem children_none_of_starts {rows : List Recording} (hrows : (rows.map (·.id)).Nodup)
    (h : Runs (Outcome.step ms) anyStep (World.init rows) w) {id : String}
    (hstart : starts w a = some id) : w.children id = none := by
  have hinv : StartInv w := by
    refine Runs.invariant h ⟨hrows, ?_, ?_⟩ fun _ _ _ hv _ hstep => hv.step hstep
    · intro now rows h; cases h
    · intro running plan pc h; cases h
  obtain ⟨running, plan, pc, r, rest, hat, hplan, rfl, hnot⟩ := ticking_of_starts hstart
  exact (hinv.ticking running plan pc hat).2 r (by simp [hplan]) hnot

/-- **An outcome is the last word and a cancel wins**, in every state that a run from boot
reaches, whatever its steps, as long as they meet the condition. -/
theorem absorbing_of_runs {rows : List Recording}
    (h : Runs (step ms) outcomesKept (World.init rows) w) :
    CancelWins w ∧ ∀ w', Runs (step ms) outcomesKept w w' → Absorbing w.rows w'.rows := by
  have hinv : CancelInv w :=
    Runs.invariant h (CancelInv.init rows) fun _ _ _ hv hguard hstep => hv.step hguard hstep
  exact ⟨fun q id hq hrun => (hinv.returned q id hq).2 hrun, fun _ => absorbing_of_outcomesKept⟩

end runs

/-! ### Three runs -/

/-- The milliseconds of the times used below. -/
def sampleMs (s : String) : Option ℤ :=
  if s = "2026-01-01T20:00:00Z" then some 1767297600000
  else if s = "2026-01-01T21:00:00Z" then some 1767301200000
  else none

def sampleRow (status : Status) : Recording where
  id := "a"
  channelStreamId := 7
  channelName := "Seven"
  title := "News"
  startUtc := "2026-01-01T20:00:00Z"
  stopUtc := "2026-01-01T21:00:00Z"
  status := status
  filePath := none
  error := none

theorem children_none_first : ∃ w, Runs (step sampleMs) anyStep (World.init [sampleRow .scheduled])
    w ∧ starts w (.tickStart (.ok (some "/dvr/a.ts"))) = some "a" ∧ w.children "a" = none := by
  have hexec : ∃ w, exec (step sampleMs) (World.init [sampleRow .scheduled])
      [.tickSelect 1767297600000, .tickPlan] = some w ∧
      starts w (.tickStart (.ok (some "/dvr/a.ts"))) = some "a" := ⟨_, rfl, rfl⟩
  obtain ⟨w, hruns, hstarts⟩ := exists_runs_of_exec hexec
  have hrows : ([sampleRow .scheduled].map (·.id)).Nodup := List.nodup_singleton _
  exact ⟨w, hruns, hstarts, children_none_of_starts hrows hruns hstarts⟩

/-- A recording that is started, cancelled and stopped. -/
theorem absorbing_cancelled :
    ∃ w, Runs (step sampleMs) outcomesKept (World.init [sampleRow .scheduled]) w ∧
      w.requests 0 = .returned "a" .cancelled ∧ w.children "a" = none ∧ CancelWins w ∧
        ∀ w', Runs (step sampleMs) outcomesKept w w' → Absorbing w.rows w'.rows := by
  have hexec : ∃ w, exec (guarded (step sampleMs) outcomesKept) (World.init [sampleRow .scheduled])
      [.tickSelect 1767297600000, .tickPlan, .tickStart (.ok (some "/dvr/a.ts")), .tickMark,
        .tickEnd, .deleteRead 0 "a", .deleteReread 0, .deleteWrite 0, .deleteReturn 0,
        .runStop "a", .childExit "a" ⟨none, some 15, true⟩, .finalizeRead "a" 1767297660000,
        .childRemove "a"] = some w ∧
      w.requests 0 = .returned "a" .cancelled ∧ w.children "a" = none := by
    exact ⟨_, rfl, rfl, rfl⟩
  obtain ⟨w, hw, hreturned, hgone⟩ := hexec
  have hruns := runs_of_exec_guarded hw
  exact ⟨w, hruns, hreturned, hgone, absorbing_of_runs hruns⟩

/-- **A tick that selected a row before it was cancelled marks it as missed**: the row's window
has closed, the cancel returns while the tick is under way, and `cancelled` becomes
`missed`. -/
theorem not_absorbing_missed :
    ∃ w, Runs (step sampleMs) anyStep (World.init [sampleRow .scheduled]) w ∧
      ∃ w', Runs (step sampleMs) anyStep w w' ∧ ¬ Absorbing w.rows w'.rows := by
  have hexec : ∃ w, exec (step sampleMs) (World.init [sampleRow .scheduled])
      [.tickSelect 1767301200000, .tickPlan, .deleteRead 0 "a", .deleteReread 0, .deleteWrite 0,
        .deleteReturn 0] = some w ∧
      ∃ w', Runs (step sampleMs) anyStep w w' ∧ ¬ Absorbing w.rows w'.rows := by
    refine ⟨_, rfl, _, .single ⟨.tickMiss, trivial, rfl⟩, fun h => ?_⟩
    have hstatus := h "a" (sampleRow .cancelled) rfl id (sampleRow .missed) rfl
    cases hstatus
  exact exists_runs_of_exec hexec

/-- **A row that is started between a cancel's two reads is cancelled with its child running**,
and no stop is requested. -/
theorem not_cancelWins_started :
    ∃ w, Runs (step sampleMs) anyStep (World.init [sampleRow .scheduled]) w ∧
      ¬ CancelWins w := by
  have hexec : ∃ w, exec (step sampleMs) (World.init [sampleRow .scheduled])
      [.tickSelect 1767297600000, .tickPlan, .deleteRead 0 "a",
        .tickStart (.ok (some "/dvr/a.ts")), .tickMark, .deleteReread 0, .deleteWrite 0,
        .deleteReturn 0] = some w ∧ ¬ CancelWins w := by
    refine ⟨_, rfl, fun h => ?_⟩
    exact List.not_mem_nil (h 0 "a" rfl rfl)
  exact exists_runs_of_exec hexec

end EmeraldExchange.Iptv.Outcome
