import Mathlib.Data.List.Sort
import EmeraldExchange.Lib.Table

/-!
# The concurrency tracker

`crates/iptv/src/concurrency.rs`: one slot for each playing stream, in memory. A slot that
has not been seen for a while is idle, and every function that locks the map first sweeps
the idle ones. `Tracker.tryAcquire` takes a slot under two caps, one for
the whole household and one that the caller gives for the kind of stream.

Times are milliseconds of one clock that does not go back. A function that reads the map
after the sweep is modelled on the swept map, which its callers obtain with
`Tracker.sweep`.
-/

namespace EmeraldExchange.Iptv

/-- Covers the remux's window and buffered fetch gaps. -/
def remuxIdleMs : ℕ := 90000

inductive Kind
  | live
  | vod
  | series
  | catchup
  | remux
  deriving DecidableEq

/-- The kinds that hold a live provider connection. -/
def Kind.isLive : Kind → Bool
  | .live | .remux => true
  | _ => false

structure Session where
  sessionId : String
  sub : String
  kind : Kind
  resourceId : String
  title : Option String
  ip : Option String
  startedAt : ℕ
  lastSeen : ℕ
  deriving DecidableEq

def Session.seen (now : ℕ) (s : Session) : Session := { s with lastSeen := now }

structure Acquire where
  sub : String
  sessionId : String
  kind : Kind
  resourceId : String
  ip : Option String
  title : Option String
  /-- A cap on the live kinds together, or on the one kind if it is not live. -/
  kindCap : Option ℕ
  /-- Replace all live slots of this viewer. -/
  replaceLive : Bool
  deriving DecidableEq

/-- A denial, with the sessions it was made against. -/
structure Limit where
  limit : ℕ
  current : ℕ
  sessions : List Session
  deriving DecidableEq

/-- **The tracker.** -/
structure Tracker where
  cap : ℕ
  idleMs : ℕ
  sessions : Table String Session

namespace Tracker

variable (t : Tracker)

def new (cap idleMs : ℕ) : Tracker := ⟨cap, idleMs, ∅⟩

/-- How long a slot of a kind may be silent. -/
def idle (kind : Kind) : ℕ := if kind = .remux then max t.idleMs remuxIdleMs else t.idleMs

def sweep (now : ℕ) : Tracker :=
  { t with sessions := t.sessions.retain fun s => now - s.lastSeen ≤ t.idle s.kind }

def sorted : List Session := t.sessions.values.insertionSort fun a b => b.startedAt ≤ a.startedAt

def replaced (a : Acquire) : List String :=
  (t.sessions.values.filter fun s =>
    s.sub = a.sub ∧ ((s.kind = a.kind ∧ s.resourceId = a.resourceId) ∨
      (a.replaceLive ∧ a.kind.isLive ∧ s.kind.isLive))).map Session.sessionId

def remaining (a : Acquire) : List Session :=
  t.sessions.values.filter fun s => s.sessionId ∉ t.replaced a

/-- The slots that share the kind cap of an acquisition. -/
def family (a : Acquire) : List Session :=
  (t.remaining a).filter fun s => if a.kind.isLive then s.kind.isLive else s.kind = a.kind

/-- Why an acquisition is denied: the kind cap first, then the cap on all. -/
def denied (a : Acquire) : Option Limit :=
  match a.kindCap.filter (· ≤ (t.family a).length) with
  | some cap => some ⟨cap, (t.family a).length, t.sorted⟩
  | none =>
    if t.cap ≤ (t.remaining a).length then some ⟨t.cap, (t.remaining a).length, t.sorted⟩
    else none

def slot (now : ℕ) (a : Acquire) : Session where
  sessionId := a.sessionId
  sub := a.sub
  kind := a.kind
  resourceId := a.resourceId
  title := a.title
  ip := a.ip
  startedAt := now
  lastSeen := now

/-- **Take a slot**: refresh it if it is there, else replace the viewer's slots that it stands
for, if the caps allow. -/
def tryAcquire (now : ℕ) (a : Acquire) : Except Limit Unit × Tracker :=
  let t := t.sweep now
  if a.sessionId ∈ t.sessions then
    (.ok (), { t with sessions := t.sessions.modify a.sessionId (Session.seen now) })
  else match t.denied a with
    | some limit => (.error limit, t)
    | none =>
      let kept := (t.replaced a).foldl (fun m id => m.erase id) t.sessions
      (.ok (), { t with sessions := kept.insert a.sessionId (slot now a) })

def heartbeat (now : ℕ) (sessionId : String) : Tracker :=
  { t with sessions := t.sessions.modify sessionId (Session.seen now) }

def find (sub : String) (kind : Kind) (resourceId : String) : Option Session :=
  t.sessions.values.find? fun s => s.sub = sub ∧ s.kind = kind ∧ s.resourceId = resourceId

/-- Refresh the slot of a viewer, a kind and a resource. It is not swept first. -/
def heartbeatByResource (now : ℕ) (sub : String) (kind : Kind) (resourceId : String) : Tracker :=
  match t.find sub kind resourceId with
  | some s => t.heartbeat now s.sessionId
  | none => t

def release (sessionId : String) : Tracker := { t with sessions := t.sessions.erase sessionId }

/-- Give up the slot of a viewer, a kind and a resource. It is not swept first. -/
def releaseByResource (sub : String) (kind : Kind) (resourceId : String) : Bool × Tracker :=
  match t.find sub kind resourceId with
  | some s => (s.sessionId ∈ t.sessions, t.release s.sessionId)
  | none => (false, t)

/-- The ids of the slots of kind `live`: raw streams and recordings. -/
def liveIds : List String :=
  (t.sessions.entries.filter fun e => e.2.kind = .live).map Sigma.fst

/-- The number of slots of kind `live`. -/
def liveCount : ℕ := (t.sessions.values.filter fun s => s.kind = .live).length

theorem length_liveIds : t.liveIds.length = t.liveCount := by
  simp [liveIds, liveCount, Table.values, List.filter_map, Function.comp_def]

variable {t}

/-- Slots of kind `live` that are all different are at most as many as are counted. -/
theorem length_le_liveCount {sids : List String} (hnodup : sids.Nodup)
    (hlive : ∀ sid ∈ sids, sid ∈ t.liveIds) : sids.length ≤ t.liveCount := by
  rw [← length_liveIds]
  exact (List.subperm_of_subset hnodup hlive).length_le

end Tracker

end EmeraldExchange.Iptv
