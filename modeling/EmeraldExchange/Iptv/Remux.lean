import Mathlib.Data.Finset.Card
import Mathlib.Data.List.MinMax
import EmeraldExchange.Iptv.Concurrency

/-!
# The remux registry

`crates/iptv/src/remux.rs`: the ffmpeg children that read a provider, in three tables. A
session is in `sessions` under its id, with the id of its child; a child that has been asked
to exit and has not is in `draining`; a feed check's capture is in `aux`. Each of them holds
one provider connection, and `Registry.count` adds the slots of
kind `live` in the tracker. What starts a child checks that count first, under the lock of
the tables.

All functions but those that start a child can only lower the number of entries, and those
add one, below the cap. These bounds are the results of this module.
-/

namespace EmeraldExchange.Iptv.Remux

structure Session where
  streamId : String
  sub : String
  startedAt : ℕ
  lastSeen : ℕ
  child : ℕ
  deriving DecidableEq

/-- **The registry**: its three tables, the cap and the next child id. A cap of zero is
none. -/
structure Registry where
  cap : ℕ
  sessions : Table String Session
  draining : Finset ℕ
  aux : Finset ℕ
  ids : ℕ

def Registry.new (cap : ℕ) : Registry := ⟨cap, ∅, ∅, ∅, 0⟩

inductive Launch
  /-- The egress proxy is not listening. -/
  | noProxy
  /-- The directory of the session cannot be made. -/
  | noDir (error : String)
  /-- ffmpeg cannot be run. -/
  | noChild
  | child
  deriving DecidableEq

def safeIdPart (v : String) : String :=
  v.map fun c => if c.isAlphanum ∨ c ∈ ['_', '.', '-'] then c else '_'

namespace Registry

variable (r : Registry)

def children : ℕ := r.sessions.size + r.draining.card + r.aux.card

/-- **The provider connections in use**, given the tracker's slots of kind `live`. -/
def count (live : ℕ) : ℕ := r.children + live

/-- Kill every feed check's capture, which drains until it exits. -/
def preempt : ℕ × Registry :=
  (r.aux.card, { r with draining := r.draining ∪ r.aux, aux := ∅ })

/-- Kill the captures where they hold the slot that a viewer needs. -/
def yieldAux (live : ℕ) : Registry :=
  if r.aux = ∅ ∨ r.cap = 0 ∨ r.count live < r.cap then r else r.preempt.2

/-- Drop a session, whose child drains until it exits. -/
def stop (sessionId : String) : Registry :=
  match r.sessions.lookup sessionId with
  | some s => { r with
      sessions := r.sessions.erase sessionId
      draining := insert s.child r.draining }
  | none => r

/-- Stop the sessions that have not been polled for a while. -/
def sweepIdle (now : ℕ) : Registry :=
  let idle := r.sessions.entries.filter fun e => remuxIdleMs < now - e.2.lastSeen
  (idle.map Sigma.fst).foldl stop r

/-- The session that was polled least recently. Of several, which the source leaves to the
order of its map, the first. -/
def lru : Option ((_ : String) × Session) := r.sessions.entries.argmin fun e => e.2.lastSeen

/-- At the cap: preempt the captures, else reclaim an idle session unless something drains
towards a free slot already. -/
def reclaim (now : ℕ) : Registry :=
  if r.aux.card > 0 then r.preempt.2
  else if r.draining = ∅ then
    match r.lru with
    | some e => if remuxIdleMs < now - e.2.lastSeen then r.stop e.1 else r
    | none => r
  else r

/-- **Start a remux** of a stream for a viewer: the id of the session, or nothing where there
is no slot or no proxy. A session whose ffmpeg cannot be run is answered but not registered. -/
def start (now live : ℕ) (streamId sub : String) (ms : ℤ) (launch : Launch) :
    Except String (Option String) × Registry :=
  if r.cap > 0 ∧ r.count live ≥ r.cap then (.ok none, r.reclaim now)
  else
    let sessionId := s!"remux:{streamId}:{safeIdPart sub}:{ms}"
    match launch with
    | .noProxy => (.ok none, r)
    | .noDir error => (.error error, r)
    | .noChild => (.ok (some sessionId), r)
    | .child => (.ok (some sessionId), { r with
        sessions := r.sessions.insert sessionId ⟨streamId, sub, now, now, r.ids⟩
        ids := r.ids + 1 })

/-- **Start a feed check's capture**, where the cap leaves a slot. -/
def captureAux (live : ℕ) (spawned : Bool) : Registry :=
  if r.cap > 0 ∧ r.count live ≥ r.cap then r
  else if spawned then { r with aux := insert r.ids r.aux, ids := r.ids + 1 }
  else r

def heartbeat (now : ℕ) (sessionId : String) : Registry :=
  { r with sessions := r.sessions.modify sessionId fun s => { s with lastSeen := now } }

/-- **A remux child exits.** If it is the child of its session still, it is relaunched in
place, or the session ends. -/
def childExit (sessionId : String) (child : ℕ) (relaunch spawned : Bool) : Registry :=
  let r := { r with draining := r.draining.erase child }
  if (r.sessions.lookup sessionId).any (·.child = child) then
    if relaunch && spawned then
      { r with
        sessions := r.sessions.modify sessionId fun s => { s with child := r.ids }
        ids := r.ids + 1 }
    else { r with sessions := r.sessions.erase sessionId }
  else r

def captureExit (child : ℕ) : Registry :=
  { r with aux := r.aux.erase child, draining := r.draining.erase child }

variable {r}

/-! ### The cap stays -/

@[simp] theorem cap_preempt : r.preempt.2.cap = r.cap := rfl

@[simp] theorem cap_yieldAux (live : ℕ) : (r.yieldAux live).cap = r.cap := by
  unfold yieldAux; split <;> rfl

@[simp] theorem cap_stop (sessionId : String) : (r.stop sessionId).cap = r.cap := by
  unfold stop; split <;> rfl

@[simp] theorem cap_sweepIdle (now : ℕ) : (r.sweepIdle now).cap = r.cap := by
  have hfold : ∀ (ids : List String) (r : Registry), (ids.foldl stop r).cap = r.cap := by
    intro ids
    induction ids with
    | nil => exact fun r => rfl
    | cons id ids ih => exact fun r => (ih (r.stop id)).trans (cap_stop id)
  exact hfold _ r

@[simp] theorem cap_reclaim (now : ℕ) : (r.reclaim now).cap = r.cap := by
  unfold reclaim
  repeat' split
  all_goals simp

@[simp] theorem cap_start (now live : ℕ) (streamId sub : String) (ms : ℤ) (launch : Launch) :
    (r.start now live streamId sub ms launch).2.cap = r.cap := by
  unfold start
  split
  · exact cap_reclaim now
  · cases launch <;> rfl

@[simp] theorem cap_captureAux (live : ℕ) (spawned : Bool) :
    (r.captureAux live spawned).cap = r.cap := by
  unfold captureAux
  repeat' split
  all_goals rfl

@[simp] theorem cap_childExit (sessionId : String) (child : ℕ) (relaunch spawned : Bool) :
    (r.childExit sessionId child relaunch spawned).cap = r.cap := by
  unfold childExit
  simp only
  repeat' split
  all_goals rfl

/-! ### Only a start adds a child -/

theorem children_preempt_le : r.preempt.2.children ≤ r.children := by
  have hunion := Finset.card_union_le r.draining r.aux
  simp only [children, preempt, Finset.card_empty]
  omega

theorem children_yieldAux_le (live : ℕ) : (r.yieldAux live).children ≤ r.children := by
  unfold yieldAux
  split
  · exact le_rfl
  · exact children_preempt_le

theorem children_stop_le (sessionId : String) : (r.stop sessionId).children ≤ r.children := by
  unfold stop
  split
  · next s hs =>
    have hmem : sessionId ∈ r.sessions := AList.lookup_isSome.mp (by simp [hs])
    have herase := Table.size_erase_of_mem hmem
    have hinsert := Finset.card_insert_le s.child r.draining
    simp only [children]
    omega
  · exact le_rfl

theorem children_sweepIdle_le (now : ℕ) : (r.sweepIdle now).children ≤ r.children := by
  have hfold : ∀ (ids : List String) (r : Registry), (ids.foldl stop r).children ≤ r.children := by
    intro ids
    induction ids with
    | nil => exact fun r => le_rfl
    | cons id ids ih => exact fun r => (ih (r.stop id)).trans (children_stop_le id)
  exact hfold _ r

theorem children_reclaim_le (now : ℕ) : (r.reclaim now).children ≤ r.children := by
  unfold reclaim
  split
  · exact children_preempt_le
  · split
    · split
      · split
        · exact children_stop_le _
        · exact le_rfl
      · exact le_rfl
    · exact le_rfl

/-- **A start adds a child only below the cap.** -/
theorem children_start_le (hcap : 0 < r.cap) (now live : ℕ) (streamId sub : String) (ms : ℤ)
    (launch : Launch) :
    (r.start now live streamId sub ms launch).2.children ≤ r.children ∨
      r.count live < r.cap ∧
        (r.start now live streamId sub ms launch).2.children ≤ r.children + 1 := by
  unfold start
  split
  · exact Or.inl (children_reclaim_le now)
  · next hfree =>
    cases launch with
    | child =>
      refine Or.inr ⟨by omega, ?_⟩
      have hinsert := Table.size_insert_le
        s!"remux:{streamId}:{safeIdPart sub}:{ms}" ⟨streamId, sub, now, now, r.ids⟩ r.sessions
      simp only [children]
      omega
    | noProxy | noDir _ | noChild => exact Or.inl le_rfl

/-- **A capture adds a child only below the cap.** -/
theorem children_captureAux_le (hcap : 0 < r.cap) (live : ℕ) (spawned : Bool) :
    (r.captureAux live spawned).children ≤ r.children ∨
      r.count live < r.cap ∧ (r.captureAux live spawned).children ≤ r.children + 1 := by
  unfold captureAux
  split
  · exact Or.inl le_rfl
  · next hfree =>
    split
    · refine Or.inr ⟨by omega, ?_⟩
      have hinsert := Finset.card_insert_le r.ids r.aux
      simp only [children]
      omega
    · exact Or.inl le_rfl

@[simp] theorem children_heartbeat (now : ℕ) (sessionId : String) :
    (r.heartbeat now sessionId).children = r.children := by
  simp [heartbeat, children]

theorem children_childExit_le (sessionId : String) (child : ℕ) (relaunch spawned : Bool) :
    (r.childExit sessionId child relaunch spawned).children ≤ r.children := by
  have hdraining := Finset.card_erase_le (s := r.draining) (a := child)
  unfold childExit
  simp only
  split
  · split
    · simp only [children, Table.size_modify]
      omega
    · have herase := Table.size_erase_le sessionId r.sessions
      simp only [children]
      omega
  · simp only [children]
    omega

theorem children_captureExit_le (child : ℕ) : (r.captureExit child).children ≤ r.children := by
  have haux := Finset.card_erase_le (s := r.aux) (a := child)
  have hdraining := Finset.card_erase_le (s := r.draining) (a := child)
  simp only [children, captureExit]
  omega

end Registry

end EmeraldExchange.Iptv.Remux
