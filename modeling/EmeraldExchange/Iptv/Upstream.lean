import EmeraldExchange.Lib.Runs
import EmeraldExchange.Iptv.Remux

/-!
# The provider connection cap

Four kinds of child and socket hold a provider connection: the remux children and the feed checks'
captures, which the remux registry counts in its own tables; the raw live proxies (`live_ts` of
`crates/iptv/src/streams.rs`); and the recorder's ffmpeg children (`FfmpegRecorder` of
`crates/iptv/src/dvr.rs`). The last two are counted through the tracker, by the slot of kind `live`
that each of them took before it dialled.

What starts a connection compares the count with the cap. The registry does so under its lock, in
one step. A raw proxy takes its slot first, so that it is counted when it checks; a recording reads
the count **before** it takes a slot, and what another starts in between is not in it
(`not_capped_record`). And a slot is not a socket: it may be swept as idle, replaced or released
while its connection is open, which is then counted nowhere.

The condition `slotsKept` is on the steps that admit a connection: there each connection of the last
two kinds has a slot of its own, and a recording takes its slot while the count is still below the
cap. Along every run that meets it, there are never more connections than the cap allows
(`capped_of_runs`).
-/

namespace EmeraldExchange.Iptv.Upstream

/-- The two caps of the configuration; the one on provider connections is set. -/
structure Config where
  maxUpstream : ℕ
  maxStreams : ℕ
  maxUpstream_pos : 0 < maxUpstream

def Config.liveKindCap (c : Config) : ℕ := min c.maxStreams c.maxUpstream

def idleMs : ℕ := 30000

/-! ### The parties -/

inductive ProxyPhase
  /-- The viewer has no slot for the channel. -/
  | arrived
  /-- It has one, and the count is not checked. -/
  | reserved (sid : String)
  /-- The count was within the cap. -/
  | admitted (sid : String)
  /-- The proxy has the channel's lease, and dials. -/
  | dialing (sid : String) (lease : ℕ)
  /-- It holds the upstream response. -/
  | streaming (sid : String) (lease : ℕ)
  /-- Its body is gone, and the response is not. -/
  | abandoned (sid : String)
  /-- The response is gone, and the body's hook has not run. -/
  | ended (sid : String) (lease : ℕ)
  | closed
  deriving DecidableEq

structure Proxy where
  sub : String
  streamId : String
  phase : ProxyPhase
  deriving DecidableEq

def Proxy.key (p : Proxy) : String := s!"{p.sub}|{p.streamId}"

/-- The slot that a request has been admitted on, for as long as it may hold a response. -/
def Proxy.charge (p : Proxy) : Option String :=
  match p.phase with
  | .admitted sid | .dialing sid _ | .streaming sid _ | .abandoned sid => some sid
  | _ => none

def Proxy.holds (p : Proxy) : Bool :=
  match p.phase with
  | .streaming _ _ | .abandoned _ => true
  | _ => false

/-- Where the start of a recording, and then its child, stands. -/
inductive RecorderPhase
  /-- The count was below the cap. -/
  | cleared
  /-- The slot is taken. -/
  | acquired
  | running
  /-- ffmpeg has exited. -/
  | exited
  /-- The slot is given up. -/
  | released
  /-- The recorder has forgotten it. -/
  | gone
  deriving DecidableEq

structure Recorder where
  id : String
  channelStreamId : ℤ
  channelName : String
  phase : RecorderPhase
  deriving DecidableEq

/-- `record_session_id`. -/
def Recorder.sid (r : Recorder) : String := s!"record:{r.id}"

/-- The slot of a recording, for as long as its child may run. -/
def Recorder.charge (r : Recorder) : Option String :=
  if r.phase = .acquired ∨ r.phase = .running then some r.sid else none

def Recorder.holds (r : Recorder) : Bool := r.phase = .running

/-- **The tables and the parties.** -/
structure World where
  now : ℕ
  tracker : Tracker
  remux : Remux.Registry
  /-- The current lease of each viewer and channel. -/
  leases : String → Option ℕ
  leaseIds : ℕ
  proxies : List Proxy
  recorders : List Recorder

def World.init (c : Config) : World where
  now := 0
  tracker := Tracker.new c.maxStreams idleMs
  remux := Remux.Registry.new c.maxUpstream
  leases := fun _ => none
  leaseIds := 0
  proxies := []
  recorders := []

inductive Action
  | advance (ms : ℕ)
  /-- A grant, or a byte route that is not live, takes a slot. -/
  | acquire (a : Acquire)
  | heartbeat (sid : String)
  | release (sid : String)
  /-- Any function of the tracker that locks its map. -/
  | sweep
  | remuxStart (streamId sub : String) (ms : ℤ) (launch : Remux.Launch)
  | remuxStop (sessionId : String)
  | remuxSweepIdle
  | remuxHeartbeat (sessionId : String)
  | remuxExit (sessionId : String) (child : ℕ) (relaunch spawned : Bool)
  | captureAux (spawned : Bool)
  | captureExit (child : ℕ)
  | preemptAux
  | yieldAux
  /-- A raw live request looks for the viewer's slot. -/
  | rawFind (sub streamId : String)
  /-- Request `i` takes a slot of its own. -/
  | rawAcquire (i : ℕ) (sid : String) (ip title : Option String)
  /-- Request `i` finds its slot gone while it waits. -/
  | rawGone (i : ℕ)
  /-- Request `i` compares the count with the cap. -/
  | rawCheck (i : ℕ)
  /-- Request `i` fails before it dials. -/
  | rawFail (i : ℕ)
  /-- Request `i` takes the channel's lease. -/
  | rawLease (i : ℕ)
  /-- The dial of request `i` has an answer. -/
  | rawDial (i : ℕ) (answered : Bool)
  /-- The body of request `i` is dropped, and its hook runs. -/
  | rawAbandon (i : ℕ)
  /-- Request `i` drops its response: at its end, at a stop or without a reader. -/
  | rawEnd (i : ℕ)
  /-- The hook of request `i` runs. -/
  | rawHook (i : ℕ)
  /-- The proxy of a channel is stopped. -/
  | stopRawLive (key : String)
  /-- The start of a recording reads the count. -/
  | recordRead (id : String) (channelStreamId : ℤ) (channelName : String)
  /-- The start of recording `i` has no proxy or no credentials. -/
  | recordQuit (i : ℕ)
  /-- The start of recording `i` takes its slot. -/
  | recordAcquire (i : ℕ)
  /-- The start of recording `i` runs ffmpeg. -/
  | recordSpawn (i : ℕ) (spawned : Bool)
  | recordExit (i : ℕ)
  | recordRelease (i : ℕ)
  | recordForget (i : ℕ)

namespace World

variable (w : World)

def lock : World := { w with tracker := w.tracker.sweep w.now }

/-- The provider connections in use, as the registry counts them. -/
def liveUpstreamCount : ℕ := w.remux.count w.tracker.liveCount

/-- The provider connections in use, as the recorder counts them. -/
def upstreamInUse : ℕ :=
  max (w.tracker.sessions.values.filter (·.kind.isLive)).length w.liveUpstreamCount

/-- Request `i` moves on. -/
def setProxy (i : ℕ) (p : Proxy) (phase : ProxyPhase) : World :=
  { w with proxies := w.proxies.set i { p with phase := phase } }

/-- Recording `i` moves on. -/
def setRecorder (i : ℕ) (r : Recorder) (phase : RecorderPhase) : World :=
  { w with recorders := w.recorders.set i { r with phase := phase } }

def release (sid : String) : World := { w with tracker := w.tracker.release sid }

/-- The hook of a proxy: give the slot up if the lease is still its own. -/
def hook (p : Proxy) (sid : String) (lease : ℕ) : World :=
  if w.leases p.key = some lease then
    { w.release sid with leases := Function.update w.leases p.key none }
  else w

/-! ### The raw live route -/

def rawFind (sub streamId : String) : Option World :=
  let w := w.lock
  match w.tracker.find sub .live streamId with
  | some s => some { w with
      tracker := w.tracker.heartbeatByResource w.now sub .live streamId
      proxies := w.proxies ++ [⟨sub, streamId, .reserved s.sessionId⟩] }
  | none => some { w with proxies := w.proxies ++ [⟨sub, streamId, .arrived⟩] }

def rawAcquire (c : Config) (i : ℕ) (sid : String) (ip title : Option String) : Option World :=
  match w.proxies[i]? with
  | some p =>
    if p.phase = .arrived then
      let a : Acquire := ⟨p.sub, sid, .live, p.streamId, ip, title, some c.liveKindCap, false⟩
      match w.tracker.tryAcquire w.now a with
      | (.ok _, tracker) => some { w.setProxy i p (.reserved sid) with
          tracker := tracker.heartbeatByResource w.now p.sub .live p.streamId }
      | (.error _, tracker) => some { w.setProxy i p .closed with tracker := tracker }
    else none
  | none => none

def rawGone (i : ℕ) : Option World :=
  let w := w.lock
  match w.proxies[i]? with
  | some p =>
    match p.phase with
    | .reserved sid => if sid ∈ w.tracker.sessions then none else some (w.setProxy i p .closed)
    | _ => none
  | none => none

/-- The last comparison of the route: above the cap the slot is given up, else the route goes
on to dial. -/
def rawCheck (c : Config) (i : ℕ) : Option World :=
  let w := w.lock
  match w.proxies[i]? with
  | some p =>
    match p.phase with
    | .reserved sid =>
      if w.liveUpstreamCount > c.maxUpstream then some ((w.release sid).setProxy i p .closed)
      else some (w.setProxy i p (.admitted sid))
    | _ => none
  | none => none

def rawFail (i : ℕ) : Option World :=
  match w.proxies[i]? with
  | some p =>
    match p.phase with
    | .admitted _ => some (w.setProxy i p .closed)
    | _ => none
  | none => none

def rawLease (i : ℕ) : Option World :=
  match w.proxies[i]? with
  | some p =>
    match p.phase with
    | .admitted sid => some { w.setProxy i p (.dialing sid w.leaseIds) with
        leases := Function.update w.leases p.key (some w.leaseIds)
        leaseIds := w.leaseIds + 1 }
    | _ => none
  | none => none

def rawDial (i : ℕ) (answered : Bool) : Option World :=
  match w.proxies[i]? with
  | some p =>
    match p.phase with
    | .dialing sid lease =>
      if answered then some (w.setProxy i p (.streaming sid lease))
      else some ((w.hook p sid lease).setProxy i p .closed)
    | _ => none
  | none => none

def rawAbandon (i : ℕ) : Option World :=
  match w.proxies[i]? with
  | some p =>
    match p.phase with
    | .streaming sid lease => some ((w.hook p sid lease).setProxy i p (.abandoned sid))
    | _ => none
  | none => none

def rawEnd (i : ℕ) : Option World :=
  match w.proxies[i]? with
  | some p =>
    match p.phase with
    | .streaming sid lease => some (w.setProxy i p (.ended sid lease))
    | .abandoned _ => some (w.setProxy i p .closed)
    | _ => none
  | none => none

def rawHook (i : ℕ) : Option World :=
  match w.proxies[i]? with
  | some p =>
    match p.phase with
    | .ended sid lease => some ((w.hook p sid lease).setProxy i p .closed)
    | _ => none
  | none => none

/-! ### The recorder -/

/-- The recorder starts what it does not run. -/
def recordRead (c : Config) (id : String) (channelStreamId : ℤ) (channelName : String) :
    Option World :=
  let w := w.lock
  if w.recorders.any fun r => r.id = id ∧ r.phase ≠ .gone then none
  else if w.upstreamInUse ≥ c.maxUpstream then some { w with remux := w.remux.preempt.2 }
  else some { w with
    recorders := w.recorders ++ [⟨id, channelStreamId, channelName, .cleared⟩] }

def recordQuit (i : ℕ) : Option World :=
  match w.recorders[i]? with
  | some r => if r.phase = .cleared then some (w.setRecorder i r .gone) else none
  | none => none

def recordAcquire (i : ℕ) : Option World :=
  match w.recorders[i]? with
  | some r =>
    if r.phase = .cleared then
      let a : Acquire := ⟨s!"dvr:{r.id}", r.sid, .live, toString r.channelStreamId, none,
        some r.channelName, none, false⟩
      match w.tracker.tryAcquire w.now a with
      | (.ok _, tracker) => some { w.setRecorder i r .acquired with tracker := tracker }
      | (.error _, tracker) => some { w.setRecorder i r .gone with tracker := tracker }
    else none
  | none => none

def recordSpawn (i : ℕ) (spawned : Bool) : Option World :=
  match w.recorders[i]? with
  | some r =>
    if r.phase = .acquired then
      if spawned then some (w.setRecorder i r .running)
      else some ((w.release r.sid).setRecorder i r .gone)
    else none
  | none => none

def recordExit (i : ℕ) : Option World :=
  match w.recorders[i]? with
  | some r => if r.phase = .running then some (w.setRecorder i r .exited) else none
  | none => none

def recordRelease (i : ℕ) : Option World :=
  match w.recorders[i]? with
  | some r =>
    if r.phase = .exited then some ((w.release r.sid).setRecorder i r .released) else none
  | none => none

def recordForget (i : ℕ) : Option World :=
  match w.recorders[i]? with
  | some r => if r.phase = .released then some (w.setRecorder i r .gone) else none
  | none => none

end World

/-- **One step of the tables and the parties.** -/
def step (c : Config) (w : World) : Action → Option World
  | .advance ms => some { w with now := w.now + ms }
  | .acquire a => some { w with tracker := (w.tracker.tryAcquire w.now a).2 }
  | .heartbeat sid => some { w with tracker := w.tracker.heartbeat w.now sid }
  | .release sid => some (w.release sid)
  | .sweep => some w.lock
  | .remuxStart streamId sub ms launch =>
    let w := w.lock
    some { w with
      remux := (w.remux.start w.now w.tracker.liveCount streamId sub ms launch).2 }
  | .remuxStop sessionId => some { w with remux := w.remux.stop sessionId }
  | .remuxSweepIdle => some { w with remux := w.remux.sweepIdle w.now }
  | .remuxHeartbeat sessionId => some { w with remux := w.remux.heartbeat w.now sessionId }
  | .remuxExit sessionId child relaunch spawned =>
    some { w with remux := w.remux.childExit sessionId child relaunch spawned }
  | .captureAux spawned =>
    let w := w.lock
    some { w with remux := w.remux.captureAux w.tracker.liveCount spawned }
  | .captureExit child => some { w with remux := w.remux.captureExit child }
  | .preemptAux => some { w with remux := w.remux.preempt.2 }
  | .yieldAux =>
    let w := w.lock
    some { w with remux := w.remux.yieldAux w.tracker.liveCount }
  | .rawFind sub streamId => w.rawFind sub streamId
  | .rawAcquire i sid ip title => w.rawAcquire c i sid ip title
  | .rawGone i => w.rawGone i
  | .rawCheck i => w.rawCheck c i
  | .rawFail i => w.rawFail i
  | .rawLease i => w.rawLease i
  | .rawDial i answered => w.rawDial i answered
  | .rawAbandon i => w.rawAbandon i
  | .rawEnd i => w.rawEnd i
  | .rawHook i => w.rawHook i
  | .stopRawLive key => some { w with leases := Function.update w.leases key none }
  | .recordRead id channelStreamId channelName => w.recordRead c id channelStreamId channelName
  | .recordQuit i => w.recordQuit i
  | .recordAcquire i => w.recordAcquire i
  | .recordSpawn i spawned => w.recordSpawn i spawned
  | .recordExit i => w.recordExit i
  | .recordRelease i => w.recordRelease i
  | .recordForget i => w.recordForget i

/-! ### The property and its condition -/

/-- **The open provider connections.** -/
def World.connections (w : World) : ℕ :=
  w.remux.children + (w.proxies.filter Proxy.holds).length +
    (w.recorders.filter Recorder.holds).length

/-- The slots on which a raw proxy or a recording has been admitted and may be connected. -/
def World.charged (w : World) : List String :=
  w.proxies.filterMap Proxy.charge ++ w.recorders.filterMap Recorder.charge

/-- **The slots tell the truth**: what has been admitted has a slot of its own. -/
def World.Ledger (w : World) : Prop :=
  w.charged.Nodup ∧ ∀ sid ∈ w.charged, sid ∈ w.tracker.liveIds

instance (w : World) : Decidable w.Ledger := inferInstanceAs (Decidable (_ ∧ _))

/-- The slot on which request `i` asks to be admitted. -/
def World.asking (w : World) (i : ℕ) : Option String :=
  w.proxies[i]?.bind fun p =>
    match p.phase with
    | .reserved sid => some sid
    | _ => none

/-- **The condition**: at a step that admits a connection, what has been admitted has a slot
of its own; so has the raw proxy that is admitted; and a recording takes its slot while
the count is below the cap. -/
def slotsKept (c : Config) (w : World) : Action → Prop
  | .remuxStart _ _ _ _ | .captureAux _ =>
    w.lock.liveUpstreamCount < c.maxUpstream → w.lock.Ledger
  | .rawCheck i =>
    w.lock.liveUpstreamCount ≤ c.maxUpstream → w.lock.Ledger ∧
      (w.asking i).all (fun sid => sid ∉ w.charged ∧ sid ∈ w.lock.tracker.liveIds) = true
  | .recordAcquire _ => w.lock.Ledger ∧ w.lock.liveUpstreamCount < c.maxUpstream
  | _ => True

instance (c : Config) (w : World) : (a : Action) → Decidable (slotsKept c w a)
  | .remuxStart _ _ _ _ | .captureAux _ | .rawCheck _ => inferInstanceAs (Decidable (_ → _))
  | .recordAcquire _ => inferInstanceAs (Decidable (_ ∧ _))
  | .advance _ | .acquire _ | .heartbeat _ | .release _ | .sweep | .remuxStop _
  | .remuxSweepIdle | .remuxHeartbeat _ | .remuxExit _ _ _ _ | .captureExit _ | .preemptAux
  | .yieldAux | .rawFind _ _ | .rawAcquire _ _ _ _ | .rawGone _ | .rawFail _ | .rawLease _
  | .rawDial _ _ | .rawAbandon _ | .rawEnd _ | .rawHook _ | .stopRawLive _ | .recordRead _ _ _
  | .recordQuit _ | .recordSpawn _ _ | .recordExit _ | .recordRelease _ | .recordForget _ =>
    .isTrue trivial

/-! ### What has been admitted -/

section load

variable {c : Config} {w w' : World} {a : Action}

theorem length_filterMap_set {α β : Type*} (f : α → Option β) {l : List α} {i : ℕ} {x : α}
    (y : α) (hi : l[i]? = some x) :
    ((l.set i y).filterMap f).length + (f x).toList.length =
      (l.filterMap f).length + (f y).toList.length := by
  induction l generalizing i with
  | nil => cases hi
  | cons z l ih =>
    cases i with
    | zero =>
      obtain rfl : z = x := by simpa using hi
      cases hx : f z <;> cases hy : f y <;> simp [hx, hy]
    | succ i =>
      have hrest := ih (by simpa using hi)
      cases hz : f z <;> simp [hz] <;> omega

theorem length_filter_le_filterMap {α β : Type*} {p : α → Bool} {f : α → Option β}
    (h : ∀ x, p x = true → (f x).isSome) (l : List α) :
    (l.filter p).length ≤ (l.filterMap f).length := by
  induction l with
  | nil => exact le_rfl
  | cons x l ih =>
    cases hf : f x with
    | none =>
      have hp : p x = false := by
        by_contra hp
        have hsome := h x (by simpa using hp)
        simp [hf] at hsome
      simpa [List.filterMap_cons, hf, hp] using ih
    | some y =>
      have hle : ((x :: l).filter p).length ≤ (l.filter p).length + 1 := by
        rw [List.filter_cons]
        split <;> simp
      simp only [List.filterMap_cons, hf, List.length_cons]
      omega

/-- The children and what has been admitted. -/
def World.load (w : World) : ℕ := w.remux.children + w.charged.length

theorem connections_le_load (w : World) : w.connections ≤ w.load := by
  have hproxy : ∀ p, Proxy.holds p = true → p.charge.isSome := by
    intro p hp
    unfold Proxy.holds at hp
    unfold Proxy.charge
    cases hphase : p.phase <;> simp_all
  have hrecorder : ∀ r, Recorder.holds r = true → r.charge.isSome := by
    intro r hr
    simp only [Recorder.holds, decide_eq_true_eq] at hr
    simp [Recorder.charge, hr]
  have hproxies := length_filter_le_filterMap hproxy w.proxies
  have hrecorders := length_filter_le_filterMap hrecorder w.recorders
  simp only [World.connections, World.load, World.charged, List.length_append]
  omega

theorem load_le_count (h : w.Ledger) : w.load ≤ w.liveUpstreamCount := by
  have hle := Tracker.length_le_liveCount h.1 h.2
  simp only [World.load, World.liveUpstreamCount, Remux.Registry.count]
  omega

theorem load_setProxy {i : ℕ} {p : Proxy} (hi : w.proxies[i]? = some p) (phase : ProxyPhase) :
    (w.setProxy i p phase).load + p.charge.toList.length =
      w.load + (Proxy.charge { p with phase := phase }).toList.length := by
  have hset := length_filterMap_set Proxy.charge { p with phase := phase } hi
  simp only [World.load, World.charged, World.setProxy, List.length_append]
  omega

theorem load_setRecorder {i : ℕ} {r : Recorder} (hi : w.recorders[i]? = some r)
    (phase : RecorderPhase) :
    (w.setRecorder i r phase).load + r.charge.toList.length =
      w.load + (Recorder.charge { r with phase := phase }).toList.length := by
  have hset := length_filterMap_set Recorder.charge { r with phase := phase } hi
  simp only [World.load, World.charged, World.setRecorder, List.length_append]
  omega

@[simp] theorem load_lock : w.lock.load = w.load := rfl

@[simp] theorem load_hook (p : Proxy) (sid : String) (lease : ℕ) :
    (w.hook p sid lease).load = w.load := by
  unfold World.hook; split <;> rfl

@[simp] theorem proxies_hook (p : Proxy) (sid : String) (lease : ℕ) :
    (w.hook p sid lease).proxies = w.proxies := by
  unfold World.hook; split <;> rfl

/-- A request that moves to a phase in which it holds no response, or that was admitted
already, adds nothing. -/
theorem load_setProxy_le {i : ℕ} {p : Proxy} (hi : w.proxies[i]? = some p) {phase : ProxyPhase}
    (h : Proxy.charge { p with phase := phase } = none ∨ p.charge.isSome) :
    (w.setProxy i p phase).load ≤ w.load := by
  have hset := load_setProxy hi phase
  rcases h with h | h
  · simp only [h, Option.toList_none, List.length_nil] at hset
    omega
  · obtain ⟨sid, hsid⟩ := Option.isSome_iff_exists.mp h
    have hle : (Proxy.charge { p with phase := phase }).toList.length ≤ 1 := by
      cases Proxy.charge { p with phase := phase } <;> simp
    simp only [hsid, Option.toList_some, List.length_singleton] at hset
    omega

/-- A recording that moves to a phase in which its child does not run, or that had its slot
already, adds nothing. -/
theorem load_setRecorder_le {i : ℕ} {r : Recorder} (hi : w.recorders[i]? = some r)
    {phase : RecorderPhase} (h : (phase ≠ .acquired ∧ phase ≠ .running) ∨ r.phase = .acquired) :
    (w.setRecorder i r phase).load ≤ w.load := by
  have hset := load_setRecorder hi phase
  rcases h with h | h
  · have hnone : Recorder.charge { r with phase := phase } = none := by simp [Recorder.charge, h]
    simp only [hnone, Option.toList_none, List.length_nil] at hset
    omega
  · have hsome : r.charge = some r.sid := by simp [Recorder.charge, h]
    have hle : (Recorder.charge { r with phase := phase }).toList.length ≤ 1 := by
      cases Recorder.charge { r with phase := phase } <;> simp
    simp only [hsome, Option.toList_some, List.length_singleton] at hset
    omega

/-- The steps that may admit a connection, with the check that they make. -/
def Admits (c : Config) (w : World) : Action → Prop
  | .remuxStart _ _ _ _ | .captureAux _ => w.lock.liveUpstreamCount < c.maxUpstream
  | .rawCheck i => w.lock.liveUpstreamCount ≤ c.maxUpstream ∧ (w.asking i).isSome
  | .recordAcquire _ => True
  | _ => False

theorem load_le_of_children (w v : World) (n : ℕ) (hproxies : v.proxies = w.proxies)
    (hrecorders : v.recorders = w.recorders)
    (hle : v.remux.children ≤ w.remux.children + n) : v.load ≤ w.load + n := by
  simp only [World.load, World.charged, hproxies, hrecorders]
  omega

/-! ### What the operations of a raw stream do to the load -/

theorem load_rawFind {sub streamId : String} (h : w.rawFind sub streamId = some w') :
    w'.load ≤ w.load := by
  simp only [World.rawFind] at h
  split at h <;> obtain rfl := Option.some.inj h <;>
    simp [World.load, World.charged, World.lock, Proxy.charge, List.filterMap_cons]

theorem load_rawAcquire {i : ℕ} {sid : String} {ip title : Option String}
    (h : w.rawAcquire c i sid ip title = some w') : w'.load ≤ w.load := by
  simp only [World.rawAcquire] at h
  split at h
  · next p hp =>
    split at h
    · split at h <;> obtain rfl := Option.some.inj h <;>
        exact load_setProxy_le hp (Or.inl rfl)
    · cases h
  · cases h

theorem load_rawGone {i : ℕ} (h : w.rawGone i = some w') : w'.load ≤ w.load := by
  simp only [World.rawGone] at h
  split at h
  · next p hp =>
    split at h
    · split at h
      · cases h
      · obtain rfl := Option.some.inj h
        exact load_setProxy_le hp (Or.inl rfl)
    · cases h
  · cases h

/-- **The check admits a request** that the count leaves a connection for. -/
theorem load_rawCheck {i : ℕ} (h : w.rawCheck c i = some w') :
    w'.load ≤ w.load ∨
      (w.lock.liveUpstreamCount ≤ c.maxUpstream ∧ (w.asking i).isSome) ∧
        w'.load ≤ w.load + 1 := by
  simp only [World.rawCheck] at h
  split at h
  · next p hp =>
    split at h
    · next sid hphase =>
      split at h
      · obtain rfl := Option.some.inj h
        exact Or.inl (load_setProxy_le hp (Or.inl rfl))
      · next hfree =>
        obtain rfl := Option.some.inj h
        refine Or.inr ⟨⟨not_lt.mp hfree, ?_⟩, ?_⟩
        · have hp' : w.proxies[i]? = some p := hp
          simp [World.asking, hp', hphase]
        · have hset := load_setProxy hp (.admitted sid)
          have hone : (Proxy.charge { p with phase := .admitted sid }).toList.length = 1 := rfl
          rw [load_lock] at hset
          omega
    · cases h
  · cases h

theorem load_rawFail {i : ℕ} (h : w.rawFail i = some w') : w'.load ≤ w.load := by
  simp only [World.rawFail] at h
  split at h
  · next p hp =>
    split at h
    · obtain rfl := Option.some.inj h
      exact load_setProxy_le hp (Or.inl rfl)
    · cases h
  · cases h

theorem load_rawLease {i : ℕ} (h : w.rawLease i = some w') : w'.load ≤ w.load := by
  simp only [World.rawLease] at h
  split at h
  · next p hp =>
    split at h
    · next sid hphase =>
      obtain rfl := Option.some.inj h
      exact load_setProxy_le hp (Or.inr (by simp [Proxy.charge, hphase]))
    · cases h
  · cases h

/-- A request whose hook has run moves to a phase in which it holds no response, or that it had
a connection for. -/
theorem load_hook_setProxy_le {i : ℕ} {p : Proxy} (hp : w.proxies[i]? = some p) (sid : String)
    (lease : ℕ) {phase : ProxyPhase}
    (h : Proxy.charge { p with phase := phase } = none ∨ p.charge.isSome) :
    ((w.hook p sid lease).setProxy i p phase).load ≤ w.load := by
  have hp' : (w.hook p sid lease).proxies[i]? = some p := by rw [proxies_hook, hp]
  exact (load_setProxy_le hp' h).trans (load_hook p sid lease).le

theorem load_rawDial {i : ℕ} {answered : Bool} (h : w.rawDial i answered = some w') :
    w'.load ≤ w.load := by
  simp only [World.rawDial] at h
  split at h
  · next p hp =>
    split at h
    · next sid lease hphase =>
      split at h
      · obtain rfl := Option.some.inj h
        exact load_setProxy_le hp (Or.inr (by simp [Proxy.charge, hphase]))
      · obtain rfl := Option.some.inj h
        exact load_hook_setProxy_le hp sid lease (Or.inl rfl)
    · cases h
  · cases h

theorem load_rawAbandon {i : ℕ} (h : w.rawAbandon i = some w') : w'.load ≤ w.load := by
  simp only [World.rawAbandon] at h
  split at h
  · next p hp =>
    split at h
    · next sid lease hphase =>
      obtain rfl := Option.some.inj h
      exact load_hook_setProxy_le hp sid lease (Or.inr (by simp [Proxy.charge, hphase]))
    · cases h
  · cases h

theorem load_rawEnd {i : ℕ} (h : w.rawEnd i = some w') : w'.load ≤ w.load := by
  simp only [World.rawEnd] at h
  split at h
  · next p hp =>
    split at h
    · obtain rfl := Option.some.inj h
      exact load_setProxy_le hp (Or.inl rfl)
    · obtain rfl := Option.some.inj h
      exact load_setProxy_le hp (Or.inl rfl)
    · cases h
  · cases h

theorem load_rawHook {i : ℕ} (h : w.rawHook i = some w') : w'.load ≤ w.load := by
  simp only [World.rawHook] at h
  split at h
  · next p hp =>
    split at h
    · next sid lease hphase =>
      obtain rfl := Option.some.inj h
      exact load_hook_setProxy_le hp sid lease (Or.inl rfl)
    · cases h
  · cases h

/-! ### What the operations of a recording do to the load -/

theorem load_recordRead {id : String} {channelStreamId : ℤ} {channelName : String}
    (h : w.recordRead c id channelStreamId channelName = some w') : w'.load ≤ w.load := by
  simp only [World.recordRead] at h
  split at h
  · cases h
  · split at h
    · obtain rfl := Option.some.inj h
      exact load_le_of_children w _ 0 rfl rfl Remux.Registry.children_preempt_le
    · obtain rfl := Option.some.inj h
      simp [World.load, World.charged, World.lock, Recorder.charge]

theorem load_recordAcquire {i : ℕ} (h : w.recordAcquire i = some w') :
    w'.load ≤ w.load + 1 := by
  simp only [World.recordAcquire] at h
  split at h
  · next r hr =>
    split at h
    · split at h
      · obtain rfl := Option.some.inj h
        have hset := load_setRecorder hr .acquired
        have hone : (Recorder.charge { r with phase := .acquired }).toList.length = 1 := rfl
        change (w.setRecorder i r .acquired).load ≤ w.load + 1
        omega
      · obtain rfl := Option.some.inj h
        exact (load_setRecorder_le hr (Or.inl ⟨by simp, by simp⟩)).trans (Nat.le_succ _)
    · cases h
  · cases h

theorem load_recordSpawn {i : ℕ} {spawned : Bool} (h : w.recordSpawn i spawned = some w') :
    w'.load ≤ w.load := by
  simp only [World.recordSpawn] at h
  split at h
  · next r hr =>
    split at h
    · next hphase =>
      split at h
      · obtain rfl := Option.some.inj h
        exact load_setRecorder_le hr (Or.inr hphase)
      · obtain rfl := Option.some.inj h
        exact load_setRecorder_le (w := w.release r.sid) hr (Or.inl ⟨by simp, by simp⟩)
    · cases h
  · cases h

/-- **What a step can do to the load**: one more connection, where it is one of four. -/
theorem load_cases (hcap : w.remux.cap = c.maxUpstream) (h : step c w a = some w') :
    w'.load ≤ w.load ∨ Admits c w a ∧ w'.load ≤ w.load + 1 := by
  have hpos : 0 < w.remux.cap := hcap ▸ c.maxUpstream_pos
  cases a with
  | remuxStart streamId sub ms launch =>
    obtain rfl := Option.some.inj h
    rcases Remux.Registry.children_start_le hpos w.now w.lock.tracker.liveCount streamId sub ms
      launch with hle | ⟨hfree, hle⟩
    · exact Or.inl (load_le_of_children w _ 0 rfl rfl hle)
    · rw [hcap] at hfree
      exact Or.inr ⟨hfree, load_le_of_children w _ 1 rfl rfl hle⟩
  | captureAux spawned =>
    obtain rfl := Option.some.inj h
    rcases Remux.Registry.children_captureAux_le hpos w.lock.tracker.liveCount spawned with
      hle | ⟨hfree, hle⟩
    · exact Or.inl (load_le_of_children w _ 0 rfl rfl hle)
    · rw [hcap] at hfree
      exact Or.inr ⟨hfree, load_le_of_children w _ 1 rfl rfl hle⟩
  | remuxStop sessionId =>
    obtain rfl := Option.some.inj h
    exact Or.inl (load_le_of_children w _ 0 rfl rfl (Remux.Registry.children_stop_le sessionId))
  | remuxSweepIdle =>
    obtain rfl := Option.some.inj h
    exact Or.inl (load_le_of_children w _ 0 rfl rfl (Remux.Registry.children_sweepIdle_le w.now))
  | remuxHeartbeat sessionId =>
    obtain rfl := Option.some.inj h
    exact Or.inl (load_le_of_children w _ 0 rfl rfl
      (Remux.Registry.children_heartbeat w.now sessionId).le)
  | remuxExit sessionId child relaunch spawned =>
    obtain rfl := Option.some.inj h
    exact Or.inl (load_le_of_children w _ 0 rfl rfl
      (Remux.Registry.children_childExit_le sessionId child relaunch spawned))
  | captureExit child =>
    obtain rfl := Option.some.inj h
    exact Or.inl (load_le_of_children w _ 0 rfl rfl (Remux.Registry.children_captureExit_le child))
  | preemptAux =>
    obtain rfl := Option.some.inj h
    exact Or.inl (load_le_of_children w _ 0 rfl rfl Remux.Registry.children_preempt_le)
  | yieldAux =>
    obtain rfl := Option.some.inj h
    exact Or.inl (load_le_of_children w _ 0 rfl rfl (Remux.Registry.children_yieldAux_le _))
  | rawFind sub streamId => exact Or.inl (load_rawFind h)
  | rawAcquire i sid ip title => exact Or.inl (load_rawAcquire h)
  | rawGone i => exact Or.inl (load_rawGone h)
  | rawCheck i => exact load_rawCheck h
  | rawFail i => exact Or.inl (load_rawFail h)
  | rawLease i => exact Or.inl (load_rawLease h)
  | rawDial i answered => exact Or.inl (load_rawDial h)
  | rawAbandon i => exact Or.inl (load_rawAbandon h)
  | rawEnd i => exact Or.inl (load_rawEnd h)
  | rawHook i => exact Or.inl (load_rawHook h)
  | recordRead id channelStreamId channelName => exact Or.inl (load_recordRead h)
  | recordAcquire i => exact Or.inr ⟨trivial, load_recordAcquire h⟩
  | recordSpawn i spawned => exact Or.inl (load_recordSpawn h)
  | recordQuit i | recordExit i | recordRelease i | recordForget i =>
    refine Or.inl ?_
    simp only [step, World.recordQuit, World.recordExit, World.recordRelease,
      World.recordForget] at h
    split at h
    · next r hr =>
      split at h
      · obtain rfl := Option.some.inj h
        exact load_setRecorder_le hr (Or.inl ⟨by simp, by simp⟩)
      · cases h
    · cases h
  | advance _ | acquire _ | heartbeat _ | release _ | sweep | stopRawLive _ =>
    obtain rfl := Option.some.inj h
    exact Or.inl le_rfl

@[simp] theorem cap_hook (p : Proxy) (sid : String) (lease : ℕ) :
    (w.hook p sid lease).remux.cap = w.remux.cap := by
  unfold World.hook; split <;> rfl

theorem cap_of_step (h : step c w a = some w') : w'.remux.cap = w.remux.cap := by
  cases a <;> simp only [step, World.rawFind, World.rawAcquire, World.rawGone, World.rawCheck,
    World.rawFail, World.rawLease, World.rawDial, World.rawAbandon, World.rawEnd, World.rawHook,
    World.recordRead, World.recordQuit, World.recordAcquire, World.recordSpawn, World.recordExit,
    World.recordRelease, World.recordForget] at h
  all_goals repeat' split at h
  all_goals first
    | cases h; done
    | (obtain rfl := Option.some.inj h
       simp [World.lock, World.setProxy, World.setRecorder, World.release,
         Remux.Registry.heartbeat, Remux.Registry.captureExit])

/-- **A step that meets the condition keeps the load within the cap.** -/
theorem load_of_step (hcap : w.remux.cap = c.maxUpstream) (hload : w.load ≤ c.maxUpstream)
    (hguard : slotsKept c w a) (h : step c w a = some w') : w'.load ≤ c.maxUpstream := by
  rcases load_cases hcap h with hle | ⟨hadmits, hle⟩
  · exact hle.trans hload
  · cases a with
    | remuxStart _ _ _ _ | captureAux _ =>
      have hcount := load_le_count (hguard hadmits)
      rw [load_lock] at hcount
      have hfree : w.lock.liveUpstreamCount < c.maxUpstream := hadmits
      omega
    | rawCheck i =>
      obtain ⟨hfree, hasking⟩ := hadmits
      obtain ⟨⟨hnodup, hlive⟩, hown⟩ := hguard hfree
      obtain ⟨sid, hsid⟩ := Option.isSome_iff_exists.mp hasking
      rw [hsid, Option.all_some, decide_eq_true_eq] at hown
      -- the request's own slot is counted besides those of the others
      have hcount := Tracker.length_le_liveCount (t := w.lock.tracker)
        (List.nodup_cons.mpr ⟨hown.1, hnodup⟩) (List.forall_mem_cons.mpr ⟨hown.2, hlive⟩)
      have hload' : w.load = w.remux.children + w.charged.length := rfl
      have hcount' : w.lock.liveUpstreamCount = w.remux.children + w.lock.tracker.liveCount := rfl
      rw [List.length_cons] at hcount
      omega
    | recordAcquire i =>
      have hcount := load_le_count hguard.1
      rw [load_lock] at hcount
      have hfree := hguard.2
      omega
    | _ => exact hadmits.elim

/-- **There are never more connections than the cap allows**, from the start of the service,
along every run that meets the condition. -/
theorem capped_of_runs (h : Runs (step c) (slotsKept c) (World.init c) w) :
    w.connections ≤ c.maxUpstream := by
  have hinv : w.remux.cap = c.maxUpstream ∧ w.load ≤ c.maxUpstream := by
    refine Runs.invariant (P := fun v => v.remux.cap = c.maxUpstream ∧ v.load ≤ c.maxUpstream) h
      ⟨rfl, Nat.zero_le _⟩ ?_
    intro v a v' ⟨hcap, hload⟩ hguard hstep
    exact ⟨(cap_of_step hstep).trans hcap, load_of_step hcap hload hguard hstep⟩
  exact (connections_le_load w).trans hinv.2

end load

/-! ### Three runs -/

/-- A cap on the provider connections, and four streams. -/
def sampleConfig (maxUpstream : ℕ) (h : 0 < maxUpstream) : Config := ⟨maxUpstream, 4, h⟩

/-- A recording, a raw stream that ends, and a remux in its place, under a cap of two. -/
theorem capped_replaced :
    ∃ w, Runs (step (sampleConfig 2 (by decide))) (slotsKept (sampleConfig 2 (by decide)))
        (World.init (sampleConfig 2 (by decide))) w ∧
      w.connections = 2 ∧ w.connections ≤ (sampleConfig 2 (by decide)).maxUpstream := by
  have hexec : ∃ w, exec (guarded (step (sampleConfig 2 (by decide)))
        (slotsKept (sampleConfig 2 (by decide)))) (World.init (sampleConfig 2 (by decide)))
      [.recordRead "a" 7 "Seven", .recordAcquire 0, .recordSpawn 0 true, .rawFind "u" "9",
        .rawAcquire 0 "live:9:u:1" none none, .rawCheck 0, .rawLease 0, .rawDial 0 true,
        .rawEnd 0, .rawHook 0, .remuxStart "9" "u" 0 .child] = some w ∧ w.connections = 2 := by
    exact ⟨_, rfl, rfl⟩
  obtain ⟨w, hw, hconnections⟩ := hexec
  have hruns := runs_of_exec_guarded hw
  exact ⟨w, hruns, hconnections, capped_of_runs hruns⟩

/-- **A recording that has read the count and a remux that starts before the recording takes
its slot are both connected**, under a cap of one. -/
theorem not_capped_record :
    ∃ w, Runs (step (sampleConfig 1 (by decide))) anyStep
        (World.init (sampleConfig 1 (by decide))) w ∧
      ¬ w.connections ≤ (sampleConfig 1 (by decide)).maxUpstream := by
  have hexec : ∃ w, exec (step (sampleConfig 1 (by decide)))
        (World.init (sampleConfig 1 (by decide)))
      [.recordRead "a" 7 "Seven", .remuxStart "9" "u" 0 .child, .recordAcquire 0,
        .recordSpawn 0 true] = some w ∧
      ¬ w.connections ≤ (sampleConfig 1 (by decide)).maxUpstream := by
    exact ⟨_, rfl, by decide⟩
  exact exists_runs_of_exec hexec

end EmeraldExchange.Iptv.Upstream
