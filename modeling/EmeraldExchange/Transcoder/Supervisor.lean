import EmeraldExchange.Lib.Runs
import EmeraldExchange.Transcoder.Session

/-!
# A transcoder session, its supervisor and its seeks

One session of `crates/transcoder/src/session.rs` as a system of parties that interleave:

* the **child**, an ffmpeg that writes numbered segment files, lists each one once it is
  complete and may exit at any time;
* the **supervisor** (`spawn_supervisor`), the sole owner of the child, which watches it,
  serves the command queue, waits out the crash backoff, and respawns;
* the **callers** of `seek` and `backfill`, each of which writes `start_secs` under the map lock,
  then sends `Restart`, then waits for the answer;
* `stop`, which removes the session and then sends `Shutdown`.

Each action of `step` is what one party does between two points
where it gives up the processor or a lock. A respawn is three of them – the snapshot under
the map lock, the computation that ends in the write-back under the map lock, and the
spawn – because callers run in between.

What is left to chance is an argument of the action: whether a keyframe lookup hits, whether a spawn
succeeds, how long a child had run. The numbering of an appending ffmpeg is the one `crash_resume`
documents: `-start_number` plus the segments it parsed.
-/

namespace EmeraldExchange.Transcoder

/-! ### The state -/

/-- What the session map holds for the session, as far as it changes. -/
structure Session where
  startSecs : ℕ
  /-- First segment number of the current child. -/
  startNumber : ℕ
  onGrid : Bool
  crashJunctions : List ℕ
  restarts : ℕ
  deriving DecidableEq

/-- The session's directory: what `index.m3u8` lists, and the segment files. -/
structure Dir where
  listed : List ℕ
  files : List ℕ
  deriving DecidableEq

/-- A running ffmpeg: the offset it was spawned at, its first segment, and the segment it
is writing. -/
structure Child where
  spawnSecs : ℕ
  startNumber : ℕ
  next : ℕ
  deriving DecidableEq

/-- Where the supervisor stands. The last three states before `exited` are the stages of a
respawn made `for_` a caller's `Restart`, or for a crash (`none`). -/
inductive Supervisor
  | running (child : Child)
  | completed
  | crashed (ranHealthily : Bool)
  | backoff
  | respawn (for_ : Option ℕ)
  | snapped (for_ : Option ℕ) (startSecs prevNumber : ℕ)
  | spawning (for_ : Option ℕ) (spawnSecs startArg nextNumber : ℕ)
  | exited
  deriving DecidableEq

inductive SessionCmd
  | restart (caller : ℕ)
  | shutdown
  deriving DecidableEq

/-- Where a caller of `seek` stands. `backfill` is the caller of its own seek. -/
inductive Caller
  | idle
  | checking (index first : ℕ)
  | ready (target : ℕ) (backfill : Bool)
  | written (target : ℕ) (backfill : Bool)
  | waiting (target : ℕ) (backfill : Bool)
  | returned (ack : Bool)
  deriving DecidableEq

/-- **The state of one session and everyone who deals with it.** `lastAcked` remembers
the target of the last seek that was acknowledged, until a crash. -/
structure World where
  session : Option Session
  dir : Dir
  supervisor : Supervisor
  queue : List SessionCmd
  callers : ℕ → Caller
  backfilling : Bool
  stopping : Bool
  lastAcked : Option ℕ

/-- **The session as `start` registers it**: the child is spawned at the landing point of
the requested start, or at the start itself, numbered from 0, off the grid. -/
def World.start (t : Title) (hit : Bool) (startSecs : ℕ) : World :=
  let grid := gridStart t hit startSecs
  let (effStart, effStartNumber) := grid.getD (startSecs, 0)
  { session := some
      { startSecs := effStart, startNumber := effStartNumber, onGrid := grid.isSome,
        crashJunctions := [], restarts := 0 }
    dir := ⟨[], []⟩
    supervisor := .running ⟨effStart, effStartNumber, effStartNumber⟩
    queue := []
    callers := fun _ => .idle
    backfilling := false
    stopping := false
    lastAcked := none }

/-! ### The child -/

/-- The segments of a live channel's sliding window (`-hls_list_size`). -/
def liveWindow : ℕ := 8

namespace World

variable (w : World)

/-- The child opens the file of the segment it is writing. -/
def childWrite : Option World :=
  match w.supervisor with
  | .running c => some { w with dir := { w.dir with files := c.next :: w.dir.files } }
  | _ => none

/-- The child completes the segment it is writing and lists it. -/
def childList : Option World :=
  match w.supervisor with
  | .running c => some { w with
      supervisor := .running { c with next := c.next + 1 }
      dir := { w.dir with listed := w.dir.listed ++ [c.next] } }
  | _ => none

/-- The child of a live channel drops the oldest segment of a full window. -/
def childPrune (t : Title) : Option World :=
  match w.supervisor, w.dir.listed with
  | .running _, oldest :: listed =>
    if t.live ∧ liveWindow < w.dir.listed.length then
      some { w with dir := ⟨listed, w.dir.files.filter (· ≠ oldest)⟩ }
    else none
  | _, _ => none

/-- The child exits: at the end of the title (`success`), or unexpectedly. -/
def childExit (success ranHealthily : Bool) : Option World :=
  match w.supervisor with
  | .running _ =>
    if success then some { w with supervisor := .completed }
    else some { w with supervisor := .crashed ranHealthily, lastAcked := none }
  | _ => none

/-! ### The callers -/

/-- Move caller `k` on. A backfill that is over gives up the backfill slot. -/
def setCaller (k : ℕ) (c : Caller) : World := { w with callers := Function.update w.callers k c }

/-- Caller `k`'s seek returns `ack`. -/
def returnSeek (k : ℕ) (backfill ack : Bool) : World :=
  { w.setCaller k (.returned ack) with backfilling := w.backfilling && !backfill }

/-- Someone calls `seek`. -/
def callSeek (k target : ℕ) : Option World :=
  match w.callers k with
  | .idle => some (w.setCaller k (.ready target false))
  | _ => none

/-- Someone calls `backfill`, which reads the session. -/
def callBackfill (k index : ℕ) : Option World :=
  match w.callers k with
  | .idle =>
    match w.session with
    | some s =>
      if s.onGrid then some (w.setCaller k (.checking index s.startNumber))
      else some (w.setCaller k (.returned false))
    | none => some (w.setCaller k (.returned false))
  | _ => none

/-- The backfill looks at the directory and at the keyframes, and goes on only where the
encoder will never write the segment and no other backfill is under way. -/
def decideBackfill (t : Title) (k : ℕ) (hit : Bool) : Option World :=
  match w.callers k with
  | .checking index first =>
    if offEncoderRange first w.dir.files index then
      match backfillSecs t hit index with
      | some secs =>
        if w.backfilling then some (w.setCaller k (.returned false))
        else some { w.setCaller k (.ready secs true) with backfilling := true }
      | none => some (w.setCaller k (.returned false))
    else some (w.setCaller k (.returned false))
  | _ => none

/-- The seek writes its target under the map lock. -/
def seekWrite (k : ℕ) : Option World :=
  match w.callers k with
  | .ready target backfill =>
    match w.session with
    | some s => some { w.setCaller k (.written target backfill) with
        session := some { s with startSecs := target } }
    | none => some (w.returnSeek k backfill false)
  | _ => none

/-- The seek sends its `Restart`. A supervisor that is gone refuses it. -/
def seekSend (k : ℕ) : Option World :=
  match w.callers k with
  | .written target backfill =>
    if w.supervisor = .exited then some (w.returnSeek k backfill false)
    else some { w.setCaller k (.waiting target backfill) with
        queue := w.queue ++ [.restart k] }
  | _ => none

def seekTimeout (k : ℕ) : Option World :=
  match w.callers k with
  | .waiting _ backfill => some (w.returnSeek k backfill false)
  | _ => none

/-- The supervisor answers caller `k`, if it still waits. -/
def answer (k : ℕ) (ack : Bool) : World :=
  match w.callers k with
  | .waiting target backfill =>
    let w' := w.returnSeek k backfill ack
    if ack then { w' with lastAcked := some target } else w'
  | _ => w

/-- The answer to the caller a respawn was made for. -/
def answerFor (for_ : Option ℕ) (ack : Bool) : World :=
  match for_ with
  | some k => w.answer k ack
  | none => w

/-! ### The supervisor -/

/-- The supervisor takes the next command, which it does wherever it waits. A `Restart`
kills the child, if there is one, and respawns. -/
def takeCmd : Option World :=
  match w.supervisor with
  | .running _ | .completed | .backoff =>
    match w.queue with
    | .restart k :: queue => some { w with supervisor := .respawn (some k), queue := queue }
    | .shutdown :: queue => some { w with supervisor := .exited, queue := queue }
    | [] => none
  | _ => none

/-- After a crash the supervisor charges the restart budget under the map lock, and tears
the session down where it is spent. -/
def chargeRestart : Option World :=
  match w.supervisor with
  | .crashed ranHealthily =>
    match w.session with
    | some s =>
      let restarts := effectiveRestartCount s.restarts ranHealthily
      if maxRestarts ≤ restarts then
        some { w with session := none, dir := ⟨[], []⟩, supervisor := .exited }
      else
        some { w with session := some { s with restarts := restarts + 1 }, supervisor := .backoff }
    | none => some { w with supervisor := .exited }
  | _ => none

/-- The backoff is over and no command came. -/
def backoffElapsed : Option World :=
  match w.supervisor with
  | .backoff => some { w with supervisor := .respawn none }
  | _ => none

/-- A respawn reads the session under the map lock. -/
def snapshot : Option World :=
  match w.supervisor with
  | .respawn for_ =>
    match w.session with
    | some s => some { w with supervisor := .snapped for_ s.startSecs s.startNumber }
    | none => some { w.answerFor for_ false with supervisor := .exited }
  | _ => none

/-- What a respawn computes from its snapshot: the argument of `-start_number`, the first
new segment, the seconds to spawn at, and the new value of `on_grid`, if it has one. -/
def respawnParams (t : Title) (hit : Bool) (dir : Dir) (for_ : Option ℕ)
    (startSecs prevNumber : ℕ) : ℕ × ℕ × ℕ × Option Bool :=
  match for_ with
  | none =>
    let resume := crashResume dir.listed prevNumber
    (resume.1, resume.2, crashResumeSecs startSecs prevNumber resume.2, none)
  | some _ =>
    match gridStart t hit startSecs with
    | some (eff, n) => (n, n, eff, some true)
    | none =>
      let next := (dir.files.max?.map fun m => max (m + 1) prevNumber).getD prevNumber
      (next, next, startSecs, some false)

/-- A respawn made for a `Restart` spawns at the landing point of the offset it read. -/
theorem respawnParams_restart (t : Title) (hit : Bool) (dir : Dir)
    (k startSecs prevNumber : ℕ) :
    (respawnParams t hit dir (some k) startSecs prevNumber).2.2.1 =
      spawnTarget t hit startSecs := by
  unfold respawnParams spawnTarget
  cases gridStart t hit startSecs <;> rfl

/-- What a crash respawn leaves of the directory: no file that is not listed. -/
def crashDir (dir : Dir) (next : ℕ) : Dir := { dir with files := dir.files.filter (· < next) }

/-- A respawn persists what it computed under the map lock. -/
def writeBack (t : Title) (hit : Bool) : Option World :=
  match w.supervisor with
  | .snapped for_ startSecs prevNumber =>
    let (startArg, nextNumber, spawnSecs, onGrid) :=
      respawnParams t hit w.dir for_ startSecs prevNumber
    match w.session with
    | some s => some { w with
        session := some { s with
          startSecs := spawnSecs
          startNumber := nextNumber
          crashJunctions := if for_.isNone then s.crashJunctions ++ [nextNumber] else []
          onGrid := onGrid.getD s.onGrid }
        dir := if for_.isNone then crashDir w.dir nextNumber else w.dir
        supervisor := .spawning for_ spawnSecs startArg nextNumber }
    | none => some { w.answerFor for_ false with supervisor := .exited }
  | _ => none

/-- A respawn clears the directory, unless it is for a crash, and spawns the child. The
new child's first segment is `-start_number` plus what it parsed. -/
def spawn (ok : Bool) : Option World :=
  match w.supervisor with
  | .spawning for_ spawnSecs startArg _ =>
    let dir := if for_.isNone then w.dir else ⟨[], []⟩
    if ok then
      if w.session.isSome then
        let first := startArg + dir.listed.length
        some { w.answerFor for_ true with
          dir := dir, supervisor := .running ⟨spawnSecs, first, first⟩ }
      else some { w.answerFor for_ false with dir := ⟨[], []⟩, supervisor := .exited }
    else
      some { w.answerFor for_ false with
        dir := dir, supervisor := .crashed false, lastAcked := none }
  | _ => none

/-! ### Stopping -/

/-- `stop` removes the session from the map. -/
def stopRemove : Option World :=
  if w.session.isSome then some { w with session := none, stopping := true } else none

/-- `stop` sends `Shutdown`. -/
def stopSend : Option World :=
  if w.stopping then some { w with
    stopping := false
    queue := if w.supervisor = .exited then w.queue else w.queue ++ [.shutdown] }
  else none

end World

/-! ### The step function -/

inductive Action
  | childWrite
  | childList
  | childPrune
  | childExit (success ranHealthily : Bool)
  | callSeek (k target : ℕ)
  | callBackfill (k index : ℕ)
  | decideBackfill (k : ℕ) (hit : Bool)
  | seekWrite (k : ℕ)
  | seekSend (k : ℕ)
  | seekTimeout (k : ℕ)
  | takeCmd
  | chargeRestart
  | backoffElapsed
  | snapshot
  | writeBack (hit : Bool)
  | spawn (ok : Bool)
  | stopRemove
  | stopSend
  deriving DecidableEq

/-- **One step of the session.** -/
def step (t : Title) (w : World) : Action → Option World
  | .childWrite => w.childWrite
  | .childList => w.childList
  | .childPrune => w.childPrune t
  | .childExit success ranHealthily => w.childExit success ranHealthily
  | .callSeek k target => w.callSeek k target
  | .callBackfill k index => w.callBackfill k index
  | .decideBackfill k hit => w.decideBackfill t k hit
  | .seekWrite k => w.seekWrite k
  | .seekSend k => w.seekSend k
  | .seekTimeout k => w.seekTimeout k
  | .takeCmd => w.takeCmd
  | .chargeRestart => w.chargeRestart
  | .backoffElapsed => w.backoffElapsed
  | .snapshot => w.snapshot
  | .writeBack hit => w.writeBack t hit
  | .spawn ok => w.spawn ok
  | .stopRemove => w.stopRemove
  | .stopSend => w.stopSend

/-! ### What a step can do

One lemma for each action: where it is possible, and the state it leads to. -/

namespace World

variable {t : Title} {w w' : World} {k : ℕ} {hit ok : Bool}

theorem childWrite_cases (h : w.childWrite = some w') :
    ∃ c, w.supervisor = .running c ∧
      w' = { w with dir := { w.dir with files := c.next :: w.dir.files } } := by
  unfold childWrite at h
  split at h
  · next c hc => exact ⟨c, hc, (Option.some.inj h).symm⟩
  · cases h

theorem childList_cases (h : w.childList = some w') :
    ∃ c, w.supervisor = .running c ∧
      w' = { w with
        supervisor := .running { c with next := c.next + 1 }
        dir := { w.dir with listed := w.dir.listed ++ [c.next] } } := by
  unfold childList at h
  split at h
  · next c hc => exact ⟨c, hc, (Option.some.inj h).symm⟩
  · cases h

theorem childPrune_cases (h : w.childPrune t = some w') :
    ∃ c oldest listed, w.supervisor = .running c ∧ w.dir.listed = oldest :: listed ∧
      listed ≠ [] ∧ w' = { w with dir := ⟨listed, w.dir.files.filter (· ≠ oldest)⟩ } := by
  unfold childPrune at h
  split at h
  · next c oldest listed hc hl =>
    split at h
    · next hlen =>
      refine ⟨c, oldest, listed, hc, hl, ?_, (Option.some.inj h).symm⟩
      rintro rfl
      simp [hl, liveWindow] at hlen
    · cases h
  · cases h

theorem childExit_cases {success ranHealthily : Bool}
    (h : w.childExit success ranHealthily = some w') :
    (∃ c, w.supervisor = .running c) ∧
      (w' = { w with supervisor := .completed } ∨
        w' = { w with supervisor := .crashed ranHealthily, lastAcked := none }) := by
  unfold childExit at h
  split at h
  · next c hc =>
    refine ⟨⟨c, hc⟩, ?_⟩
    split at h
    · exact Or.inl (Option.some.inj h).symm
    · exact Or.inr (Option.some.inj h).symm
  · cases h

theorem callSeek_cases {target : ℕ} (h : w.callSeek k target = some w') :
    w.callers k = .idle ∧ w' = w.setCaller k (.ready target false) := by
  unfold callSeek at h
  split at h
  · next hk => exact ⟨hk, (Option.some.inj h).symm⟩
  · cases h

/-- A call of `backfill` moves its caller on, and never as far as a write. -/
theorem callBackfill_cases {index : ℕ} (h : w.callBackfill k index = some w') :
    w.callers k = .idle ∧ ∃ c, w' = w.setCaller k c ∧
      ((∃ first, c = .checking index first) ∨ c = .returned false) := by
  unfold callBackfill at h
  split at h
  · next hk =>
    refine ⟨hk, ?_⟩
    split at h
    · split at h
      · exact ⟨_, (Option.some.inj h).symm, Or.inl ⟨_, rfl⟩⟩
      · exact ⟨_, (Option.some.inj h).symm, Or.inr rfl⟩
    · exact ⟨_, (Option.some.inj h).symm, Or.inr rfl⟩
  · cases h

theorem decideBackfill_cases (h : w.decideBackfill t k hit = some w') :
    (∃ index first, w.callers k = .checking index first) ∧ ∃ c backfilling,
      w' = { w.setCaller k c with backfilling := backfilling } ∧
      ((∃ secs, c = .ready secs true) ∨ c = .returned false) := by
  unfold decideBackfill at h
  split at h
  · next index first hk =>
    refine ⟨⟨index, first, hk⟩, ?_⟩
    split at h
    · split at h
      · split at h
        · exact ⟨_, _, (Option.some.inj h).symm, Or.inr rfl⟩
        · exact ⟨_, _, (Option.some.inj h).symm, Or.inl ⟨_, rfl⟩⟩
      · exact ⟨_, _, (Option.some.inj h).symm, Or.inr rfl⟩
    · exact ⟨_, _, (Option.some.inj h).symm, Or.inr rfl⟩
  · cases h

theorem seekWrite_cases (h : w.seekWrite k = some w') :
    ∃ target backfill, w.callers k = .ready target backfill ∧
      ((∃ s, w.session = some s ∧ w' = { w.setCaller k (.written target backfill) with
          session := some { s with startSecs := target } }) ∨
        w.session = none ∧ w' = w.returnSeek k backfill false) := by
  unfold seekWrite at h
  split at h
  · next target backfill hk =>
    refine ⟨target, backfill, hk, ?_⟩
    split at h
    · next s hs => exact Or.inl ⟨s, hs, (Option.some.inj h).symm⟩
    · next hs => exact Or.inr ⟨hs, (Option.some.inj h).symm⟩
  · cases h

theorem seekSend_cases (h : w.seekSend k = some w') :
    ∃ target backfill, w.callers k = .written target backfill ∧
      (w.supervisor = .exited ∧ w' = w.returnSeek k backfill false ∨
        w.supervisor ≠ .exited ∧ w' = { w.setCaller k (.waiting target backfill) with
          queue := w.queue ++ [.restart k] }) := by
  unfold seekSend at h
  split at h
  · next target backfill hk =>
    refine ⟨target, backfill, hk, ?_⟩
    split at h
    · next hs => exact Or.inl ⟨hs, (Option.some.inj h).symm⟩
    · next hs => exact Or.inr ⟨hs, (Option.some.inj h).symm⟩
  · cases h

theorem seekTimeout_cases (h : w.seekTimeout k = some w') :
    ∃ target backfill, w.callers k = .waiting target backfill ∧
      w' = w.returnSeek k backfill false := by
  unfold seekTimeout at h
  split at h
  · next target backfill hk => exact ⟨target, backfill, hk, (Option.some.inj h).symm⟩
  · cases h

theorem takeCmd_cases (h : w.takeCmd = some w') :
    ((∃ c, w.supervisor = .running c) ∨ w.supervisor = .completed ∨ w.supervisor = .backoff) ∧
      ((∃ k queue, w.queue = .restart k :: queue ∧
          w' = { w with supervisor := .respawn (some k), queue := queue }) ∨
        ∃ queue, w.queue = .shutdown :: queue ∧
          w' = { w with supervisor := .exited, queue := queue }) := by
  have hqueue : ∀ v, (match w.queue with
      | .restart k :: queue => some { w with supervisor := .respawn (some k), queue := queue }
      | .shutdown :: queue => some { w with supervisor := .exited, queue := queue }
      | [] => none) = some v →
      ((∃ k queue, w.queue = .restart k :: queue ∧
          v = { w with supervisor := .respawn (some k), queue := queue }) ∨
        ∃ queue, w.queue = .shutdown :: queue ∧
          v = { w with supervisor := .exited, queue := queue }) := by
    intro v hv
    split at hv
    · next k queue hq => exact Or.inl ⟨k, queue, hq, (Option.some.inj hv).symm⟩
    · next queue hq => exact Or.inr ⟨queue, hq, (Option.some.inj hv).symm⟩
    · cases hv
  unfold takeCmd at h
  split at h
  · next c hc => exact ⟨Or.inl ⟨c, hc⟩, hqueue _ h⟩
  · next hc => exact ⟨Or.inr (Or.inl hc), hqueue _ h⟩
  · next hc => exact ⟨Or.inr (Or.inr hc), hqueue _ h⟩
  · cases h

theorem chargeRestart_cases (h : w.chargeRestart = some w') :
    (∃ ranHealthily, w.supervisor = .crashed ranHealthily) ∧
      ((∃ s restarts, w.session = some s ∧
          w' = { w with session := some { s with restarts := restarts }, supervisor := .backoff }) ∨
        ∃ dir, w' = { w with session := none, dir := dir, supervisor := .exited }) := by
  unfold chargeRestart at h
  split at h
  · next healthy hc =>
    refine ⟨⟨healthy, hc⟩, ?_⟩
    split at h
    · next s hs =>
      simp only at h
      split at h
      · exact Or.inr ⟨_, (Option.some.inj h).symm⟩
      · exact Or.inl ⟨s, _, hs, (Option.some.inj h).symm⟩
    · next hs =>
      obtain rfl := Option.some.inj h
      exact Or.inr ⟨w.dir, by rw [← hs]⟩
  · cases h

theorem backoffElapsed_cases (h : w.backoffElapsed = some w') :
    w.supervisor = .backoff ∧ w' = { w with supervisor := .respawn none } := by
  unfold backoffElapsed at h
  split at h
  · next hc => exact ⟨hc, (Option.some.inj h).symm⟩
  · cases h

theorem snapshot_cases (h : w.snapshot = some w') :
    ∃ for_, w.supervisor = .respawn for_ ∧
      ((∃ s, w.session = some s ∧
          w' = { w with supervisor := .snapped for_ s.startSecs s.startNumber }) ∨
        w.session = none ∧ w' = { w.answerFor for_ false with supervisor := .exited }) := by
  unfold snapshot at h
  split at h
  · next for_ hc =>
    refine ⟨for_, hc, ?_⟩
    split at h
    · next s hs => exact Or.inl ⟨s, hs, (Option.some.inj h).symm⟩
    · next hs => exact Or.inr ⟨hs, (Option.some.inj h).symm⟩
  · cases h

theorem writeBack_cases (h : w.writeBack t hit = some w') :
    ∃ for_ startSecs prevNumber, w.supervisor = .snapped for_ startSecs prevNumber ∧
      ((∃ s startArg nextNumber spawnSecs onGrid crashJunctions, w.session = some s ∧
          respawnParams t hit w.dir for_ startSecs prevNumber =
            (startArg, nextNumber, spawnSecs, onGrid) ∧
          w' = { w with
            session := some { s with
              startSecs := spawnSecs
              startNumber := nextNumber
              crashJunctions := crashJunctions
              onGrid := onGrid.getD s.onGrid }
            dir := if for_.isNone then crashDir w.dir nextNumber else w.dir
            supervisor := .spawning for_ spawnSecs startArg nextNumber }) ∨
        w.session = none ∧ w' = { w.answerFor for_ false with supervisor := .exited }) := by
  unfold writeBack at h
  split at h
  · next for_ startSecs prevNumber hc =>
    refine ⟨for_, startSecs, prevNumber, hc, ?_⟩
    rcases hp : respawnParams t hit w.dir for_ startSecs prevNumber with
      ⟨startArg, nextNumber, spawnSecs, onGrid⟩
    rw [hp] at h
    simp only at h
    split at h
    · next s hs =>
      exact Or.inl ⟨s, startArg, nextNumber, spawnSecs, onGrid, _, hs, rfl,
        (Option.some.inj h).symm⟩
    · next hs => exact Or.inr ⟨hs, (Option.some.inj h).symm⟩
  · cases h

theorem spawn_cases (h : w.spawn ok = some w') :
    ∃ for_ spawnSecs startArg nextNumber,
      w.supervisor = .spawning for_ spawnSecs startArg nextNumber ∧
      ((∃ dir, w.session.isSome ∧ dir = (if for_.isNone then w.dir else ⟨[], []⟩) ∧ ok ∧
          w' = { w.answerFor for_ true with
            dir := dir
            supervisor := .running
              ⟨spawnSecs, startArg + dir.listed.length, startArg + dir.listed.length⟩ }) ∨
        (w.session = none ∧
          w' = { w.answerFor for_ false with dir := ⟨[], []⟩, supervisor := .exited }) ∨
        w' = { w.answerFor for_ false with
          dir := if for_.isNone then w.dir else ⟨[], []⟩
          supervisor := .crashed false
          lastAcked := none }) := by
  unfold spawn at h
  split at h
  · next for_ spawnSecs startArg nextNumber hc =>
    refine ⟨for_, spawnSecs, startArg, nextNumber, hc, ?_⟩
    simp only at h
    split at h
    · next hok =>
      split at h
      · next hs => exact Or.inl ⟨_, hs, rfl, hok, (Option.some.inj h).symm⟩
      · next hs =>
        exact Or.inr (Or.inl ⟨by simpa using hs, (Option.some.inj h).symm⟩)
    · exact Or.inr (Or.inr (Option.some.inj h).symm)
  · cases h

theorem stopRemove_cases (h : w.stopRemove = some w') :
    w' = { w with session := none, stopping := true } := by
  unfold stopRemove at h
  split at h
  · exact (Option.some.inj h).symm
  · cases h

theorem stopSend_cases (h : w.stopSend = some w') :
    ∃ queue, (queue = w.queue ∨ queue = w.queue ++ [.shutdown]) ∧
      w' = { w with stopping := false, queue := queue } := by
  unfold stopSend at h
  split at h
  · refine ⟨_, ?_, (Option.some.inj h).symm⟩
    split
    · exact Or.inl rfl
    · exact Or.inr rfl
  · cases h

/-! ### What an answer leaves alone -/

@[simp] theorem setCaller_callers (c : Caller) :
    (w.setCaller k c).callers = Function.update w.callers k c := rfl

@[simp] theorem returnSeek_callers (b a : Bool) :
    (w.returnSeek k b a).callers = Function.update w.callers k (.returned a) := rfl

@[simp] theorem answer_session (a : Bool) : (w.answer k a).session = w.session := by
  unfold answer; split
  · simp only; split <;> rfl
  · rfl

@[simp] theorem answer_queue (a : Bool) : (w.answer k a).queue = w.queue := by
  unfold answer; split
  · simp only; split <;> rfl
  · rfl

@[simp] theorem answerFor_session (f : Option ℕ) (a : Bool) :
    (w.answerFor f a).session = w.session := by
  cases f with
  | none => rfl
  | some k => exact answer_session a

@[simp] theorem answerFor_queue (f : Option ℕ) (a : Bool) :
    (w.answerFor f a).queue = w.queue := by
  cases f with
  | none => rfl
  | some k => exact answer_queue a

theorem answerFor_callers (w : World) (f : Option ℕ) (a : Bool) (j : ℕ) :
    (w.answerFor f a).callers j = w.callers j ∨
      f = some j ∧ (w.answerFor f a).callers j = .returned a ∧
        ∃ target backfill, w.callers j = .waiting target backfill := by
  cases f with
  | none => exact Or.inl rfl
  | some k =>
    simp only [answerFor, answer]
    split
    · next target backfill hk =>
      have hcallers : ∀ v : World, v.callers = Function.update w.callers k (.returned a) →
          v.callers j = w.callers j ∨ some k = some j ∧ v.callers j = .returned a ∧
            ∃ target backfill, w.callers j = .waiting target backfill := by
        intro v hv
        rcases eq_or_ne j k with rfl | hne
        · exact Or.inr ⟨rfl, by simp [hv], target, backfill, hk⟩
        · exact Or.inl (by simp [hv, hne])
      split
      · exact hcallers _ rfl
      · exact hcallers _ rfl
    · exact Or.inl rfl

/-- What is acknowledged after an answer: the target of the caller it was for, or what
was acknowledged before, if that caller waits no longer. -/
theorem answerFor_lastAcked (w : World) (f : Option ℕ) :
    (∃ k target backfill, f = some k ∧ w.callers k = .waiting target backfill ∧
        (w.answerFor f true).lastAcked = some target) ∨
      (∀ k target backfill, f = some k → w.callers k ≠ .waiting target backfill) ∧
        (w.answerFor f true).lastAcked = w.lastAcked := by
  cases f with
  | none => exact Or.inr ⟨by simp, rfl⟩
  | some k =>
    simp only [answerFor, answer]
    split
    · next target backfill hk => exact Or.inl ⟨k, target, backfill, rfl, hk, rfl⟩
    · next hk =>
      refine Or.inr ⟨?_, rfl⟩
      intro j target backfill hj hwait
      obtain rfl := Option.some.inj hj
      exact hk target backfill hwait

end World

/-! ### Seeks under way -/

/-- **A seek is under way in the queue**: its target is written, and its `Restart` not
yet sent or not yet taken. -/
def SeekPending (w : World) : Prop :=
  (∃ k target backfill, w.callers k = .written target backfill) ∨ ∃ k, .restart k ∈ w.queue

/-- **A seek is in progress**: from the write of its target until the respawn its
`Restart` led to is over. -/
def SeekInProgress (w : World) : Prop :=
  SeekPending w ∨ ∃ k, w.supervisor = .respawn (some k) ∨
    (∃ secs number, w.supervisor = .snapped (some k) secs number) ∨
    ∃ secs arg number, w.supervisor = .spawning (some k) secs arg number

variable {w w' : World} {k : ℕ}

/-- Moving a caller that has not just written, and keeping the queue, keeps a seek
pending. -/
theorem SeekPending.update {c : Caller} (h : SeekPending w)
    (hk : ∀ target backfill, w.callers k ≠ .written target backfill)
    (hcallers : w'.callers = Function.update w.callers k c)
    (hqueue : ∀ cmd ∈ w.queue, cmd ∈ w'.queue) : SeekPending w' := by
  rcases h with ⟨j, target, backfill, hj⟩ | ⟨j, hj⟩
  · refine Or.inl ⟨j, target, backfill, ?_⟩
    rcases eq_or_ne j k with rfl | hne
    · exact absurd hj (hk target backfill)
    · rwa [hcallers, Function.update_of_ne hne]
  · exact Or.inr ⟨j, hqueue _ hj⟩

theorem SeekPending.answerFor {f : Option ℕ} {a : Bool} (h : SeekPending w)
    (hcallers : w'.callers = (w.answerFor f a).callers) (hqueue : w'.queue = w.queue) :
    SeekPending w' := by
  rcases h with ⟨j, target, backfill, hj⟩ | ⟨j, hj⟩
  · refine Or.inl ⟨j, target, backfill, ?_⟩
    rcases w.answerFor_callers f a j with hsame | ⟨-, -, target', backfill', hwait⟩
    · rw [hcallers, hsame, hj]
    · rw [hj] at hwait
      cases hwait
  · exact Or.inr ⟨j, hqueue ▸ hj⟩

end EmeraldExchange.Transcoder
