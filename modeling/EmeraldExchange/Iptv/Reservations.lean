import EmeraldExchange.Iptv.Concurrency
import EmeraldExchange.Lib.Runs

/-!
# The reservations of the tracker over whole runs

`crates/iptv/src/concurrency.rs` again, now as a system that takes call after call. The calls
are those of `Tracker.Call`, in any order, with any arguments and at any
times: nothing below needs the clock to go forward.

`Tracker.Kept` is what every call keeps: the household's cap, the key of
an entry, and one slot for each viewer, kind and resource. An acquisition decides before it
evicts. It counts the slots that it would leave, and only where the caps allow one more does
it drop the superseded ones, so a refusal leaves the swept map and the new slot takes the place
of those that are gone.
-/

namespace EmeraldExchange.Iptv

def Session.resource (s : Session) : String × Kind × String := (s.sub, s.kind, s.resourceId)

@[simp] theorem Session.resource_seen (now : ℕ) (s : Session) :
    (s.seen now).resource = s.resource := rfl

@[simp] theorem Session.sessionId_seen (now : ℕ) (s : Session) :
    (s.seen now).sessionId = s.sessionId := rfl

@[simp] theorem Session.kind_seen (now : ℕ) (s : Session) : (s.seen now).kind = s.kind := rfl

namespace Tracker

inductive Call
  | tryAcquire (now : ℕ) (a : Acquire)
  | heartbeat (now : ℕ) (sessionId : String)
  | heartbeatByResource (now : ℕ) (sub : String) (kind : Kind) (resourceId : String)
  | release (sessionId : String)
  | releaseByResource (sub : String) (kind : Kind) (resourceId : String)
  | sweep (now : ℕ)
  deriving DecidableEq

def call (t : Tracker) : Call → Tracker
  | .tryAcquire now a => (t.tryAcquire now a).2
  | .heartbeat now sid => t.heartbeat now sid
  | .heartbeatByResource now sub kind rid => t.heartbeatByResource now sub kind rid
  | .release sid => t.release sid
  | .releaseByResource sub kind rid => (t.releaseByResource sub kind rid).2
  | .sweep now => t.sweep now

def step (t : Tracker) (c : Call) : Option Tracker := some (t.call c)

/-- The slots that hold a live provider connection. -/
def liveFamily (t : Tracker) : List Session := t.sessions.values.filter fun s => s.kind.isLive

/-- Acquisitions of a live kind carry the kind cap `c`. -/
def LiveCapped (c : ℕ) (_ : Tracker) : Call → Prop
  | .tryAcquire _ a => a.kind.isLive → a.kindCap = some c
  | _ => True

instance (c : ℕ) (t : Tracker) (a : Call) : Decidable (LiveCapped c t a) := by
  cases a <;> unfold LiveCapped <;> infer_instance

/-- **What every call keeps.** -/
structure Kept (t : Tracker) : Prop where
  size_le : t.sessions.size ≤ t.cap
  keyed : ∀ e ∈ t.sessions.entries, e.2.sessionId = e.1
  unique : (t.sessions.values.map Session.resource).Nodup

variable {t : Tracker}

/-! ### Fewer slots, and slots that are seen -/

theorem Kept.sublist (h : t.Kept) {m : Table String Session}
    (hsub : m.entries.Sublist t.sessions.entries) : Kept { t with sessions := m } where
  size_le := hsub.length_le.trans h.size_le
  keyed e he := h.keyed e (hsub.subset he)
  unique := h.unique.sublist ((hsub.map _).map _)

theorem Kept.sweep (h : t.Kept) (now : ℕ) : (t.sweep now).Kept := h.sublist List.filter_sublist

theorem Kept.release (h : t.Kept) (sid : String) : (t.release sid).Kept :=
  h.sublist (List.kerase_sublist sid _)

theorem Kept.heartbeat (h : t.Kept) (now : ℕ) (sid : String) : (t.heartbeat now sid).Kept where
  size_le := by
    show (t.sessions.modify sid _).size ≤ t.cap
    rw [Table.size_modify]
    exact h.size_le
  keyed e he := by
    change e ∈ (t.sessions.modify sid _).entries at he
    rw [Table.modify_eq_mapValues] at he
    obtain ⟨e', he', rfl⟩ := List.mem_map.mp he
    have hkey := h.keyed e' he'
    rcases eq_or_ne e'.1 sid with hs | hs <;> simpa [Sigma.map, hs] using hkey
  unique := by
    show ((t.sessions.modify sid _).values.map Session.resource).Nodup
    rw [Table.map_values_modify (Session.resource_seen now)]
    exact h.unique

/-! ### An acquisition -/

/-- The map without the slots that an acquisition replaces. -/
def evicted (t : Tracker) (a : Acquire) : Table String Session :=
  (t.replaced a).foldl (fun m id => m.erase id) t.sessions

/-- The tracker with a slot taken in place of those it replaces. -/
def taken (t : Tracker) (now : ℕ) (a : Acquire) : Tracker :=
  { t with sessions := (t.evicted a).insert a.sessionId (slot now a) }

section acquire

variable {a : Acquire} {now : ℕ}

theorem values_evicted (h : t.Kept) (a : Acquire) : (t.evicted a).values = t.remaining a := by
  rw [evicted, Table.values, Table.entries_foldl_erase, remaining, Table.values, List.filter_map]
  refine congrArg _ (List.filter_congr fun e he => ?_)
  simp [h.keyed e he]

theorem resource_ne_of_mem_remaining {s : Session} (hs : s ∈ t.remaining a) :
    s.resource ≠ (slot now a).resource := by
  intro hres
  obtain ⟨hmem, hnot⟩ := List.mem_filter.mp hs
  simp only [Session.resource, slot, Prod.mk.injEq] at hres
  obtain ⟨hsub, hkind, hrid⟩ := hres
  refine of_decide_eq_true hnot (List.mem_map.mpr ⟨s, List.mem_filter.mpr ⟨hmem, ?_⟩, rfl⟩)
  simp [hsub, hkind, hrid]

theorem denied_eq_none (h : t.denied a = none) :
    (t.remaining a).length < t.cap ∧ ∀ c, a.kindCap = some c → (t.family a).length < c := by
  unfold denied at h
  cases hcap : a.kindCap.filter (· ≤ (t.family a).length) with
  | some c => rw [hcap] at h; exact absurd h (by simp)
  | none =>
    rw [hcap] at h
    have hlt : (t.remaining a).length < t.cap := by
      by_contra hge
      simp [not_lt.mp hge] at h
    refine ⟨hlt, fun c hc => ?_⟩
    rw [hc, Option.filter_eq_none_iff] at hcap
    simpa using hcap c rfl

/-- **What an acquisition does**: it refreshes a slot, it is refused and leaves the swept map,
or it takes a slot beside those that remain. -/
theorem tryAcquire_cases (t : Tracker) (now : ℕ) (a : Acquire) :
    t.tryAcquire now a = (.ok (), (t.sweep now).heartbeat now a.sessionId) ∨
    (∃ limit, t.tryAcquire now a = (.error limit, t.sweep now)) ∨
    ((t.sweep now).denied a = none ∧ a.sessionId ∉ (t.sweep now).sessions ∧
      t.tryAcquire now a = (.ok (), (t.sweep now).taken now a)) := by
  simp only [tryAcquire]
  by_cases hmem : a.sessionId ∈ (t.sweep now).sessions
  · exact Or.inl (by rw [if_pos hmem]; rfl)
  · rw [if_neg hmem]
    cases hdenied : (t.sweep now).denied a with
    | some limit => exact Or.inr (Or.inl ⟨limit, rfl⟩)
    | none => exact Or.inr (Or.inr ⟨rfl, hmem, rfl⟩)

theorem entries_taken (hmem : a.sessionId ∉ t.sessions) :
    (t.taken now a).sessions.entries = ⟨a.sessionId, slot now a⟩ :: (t.evicted a).entries := by
  refine AList.entries_insert_of_notMem fun hin => hmem ?_
  rw [AList.mem_keys] at hin ⊢
  obtain ⟨v, hv⟩ := List.mem_keys.mp hin
  rw [evicted, Table.entries_foldl_erase] at hv
  exact List.mem_keys_of_mem (List.mem_of_mem_filter hv)

theorem Kept.taken (h : t.Kept) (hdenied : t.denied a = none) (hmem : a.sessionId ∉ t.sessions) :
    (t.taken now a).Kept where
  size_le := by
    have hlen := congrArg List.length (values_evicted h a)
    rw [Table.values, List.length_map] at hlen
    have hroom := (denied_eq_none hdenied).1
    rw [Table.size, entries_taken hmem, List.length_cons]
    show _ ≤ t.cap
    omega
  keyed e he := by
    rw [entries_taken hmem] at he
    rcases List.mem_cons.mp he with rfl | he
    · rfl
    · rw [evicted, Table.entries_foldl_erase] at he
      exact h.keyed e (List.mem_of_mem_filter he)
  unique := by
    rw [Table.values, entries_taken hmem, List.map_cons, List.map_cons, ← Table.values,
      values_evicted h a, List.nodup_cons]
    constructor
    · -- a slot for the same resource would have been replaced
      rintro hin
      obtain ⟨s, hs, hres⟩ := List.mem_map.mp hin
      exact resource_ne_of_mem_remaining hs hres
    · exact h.unique.sublist (List.filter_sublist.map _)

theorem Kept.tryAcquire (h : t.Kept) (now : ℕ) (a : Acquire) : (t.tryAcquire now a).2.Kept := by
  rcases tryAcquire_cases t now a with heq | ⟨limit, heq⟩ | ⟨hdenied, hmem, heq⟩ <;> rw [heq]
  · exact (h.sweep now).heartbeat now a.sessionId
  · exact h.sweep now
  · exact (h.sweep now).taken hdenied hmem

end acquire

/-- **Every call keeps the tracker.** -/
theorem Kept.call (h : t.Kept) (c : Call) : (t.call c).Kept := by
  rcases c with ⟨now, a⟩ | ⟨now, sid⟩ | ⟨now, sub, kind, rid⟩ | sid | ⟨sub, kind, rid⟩ | now
  · exact h.tryAcquire now a
  · exact h.heartbeat now sid
  · show (t.heartbeatByResource now sub kind rid).Kept
    unfold heartbeatByResource
    split
    · exact h.heartbeat now _
    · exact h
  · exact h.release sid
  · show (t.releaseByResource sub kind rid).2.Kept
    unfold releaseByResource
    split
    · exact h.release _
    · exact h
  · exact h.sweep now

theorem kept_new (cap idleMs : ℕ) : (new cap idleMs).Kept where
  size_le := Nat.zero_le _
  keyed e he := absurd he (by simp [new])
  unique := List.nodup_nil

/-! ### The live family -/

theorem length_liveFamily (t : Tracker) :
    t.liveFamily.length = (t.sessions.values.map Session.kind).countP Kind.isLive := by
  rw [liveFamily, ← List.countP_eq_length_filter, List.countP_map]
  rfl

theorem length_liveFamily_le {m : Table String Session}
    (hsub : m.entries.Sublist t.sessions.entries) :
    ({ t with sessions := m } : Tracker).liveFamily.length ≤ t.liveFamily.length :=
  ((hsub.map _).filter _).length_le

theorem length_liveFamily_heartbeat (t : Tracker) (now : ℕ) (sid : String) :
    (t.heartbeat now sid).liveFamily.length = t.liveFamily.length := by
  rw [length_liveFamily, length_liveFamily]
  show ((t.sessions.modify sid _).values.map Session.kind).countP _ = _
  rw [Table.map_values_modify (Session.kind_seen now)]

theorem length_liveFamily_taken {c now : ℕ} {a : Acquire} (h : t.Kept)
    (hle : t.liveFamily.length ≤ c) (hdenied : t.denied a = none)
    (hmem : a.sessionId ∉ t.sessions) (hcap : a.kind.isLive → a.kindCap = some c) :
    (t.taken now a).liveFamily.length ≤ c := by
  have hvalues : (t.taken now a).sessions.values = slot now a :: t.remaining a := by
    rw [Table.values, entries_taken hmem, List.map_cons, ← Table.values, values_evicted h a]
  rw [liveFamily, hvalues, List.filter_cons]
  by_cases hlive : a.kind.isLive
  · -- the family was counted without the slots that are replaced
    have hroom := (denied_eq_none hdenied).2 c (hcap hlive)
    simp only [family, hlive, if_true] at hroom
    rw [if_pos (by simpa [slot] using hlive), List.length_cons]
    omega
  · rw [if_neg (by simpa [slot] using hlive)]
    exact (List.filter_sublist.filter _).length_le.trans hle

theorem length_liveFamily_call {c : ℕ} (h : t.Kept) (hle : t.liveFamily.length ≤ c) {k : Call}
    (hcap : LiveCapped c t k) : (t.call k).liveFamily.length ≤ c := by
  have hswept : ∀ now, (t.sweep now).liveFamily.length ≤ c := fun now =>
    (length_liveFamily_le List.filter_sublist).trans hle
  rcases k with ⟨now, a⟩ | ⟨now, sid⟩ | ⟨now, sub, kind, rid⟩ | sid | ⟨sub, kind, rid⟩ | now
  · show (t.tryAcquire now a).2.liveFamily.length ≤ c
    rcases tryAcquire_cases t now a with heq | ⟨limit, heq⟩ | ⟨hdenied, hmem, heq⟩ <;> rw [heq]
    · exact (length_liveFamily_heartbeat _ now _).trans_le (hswept now)
    · exact hswept now
    · exact length_liveFamily_taken (h.sweep now) (hswept now) hdenied hmem hcap
  · exact (length_liveFamily_heartbeat t now sid).trans_le hle
  · show (t.heartbeatByResource now sub kind rid).liveFamily.length ≤ c
    unfold heartbeatByResource
    split
    · exact (length_liveFamily_heartbeat t now _).trans_le hle
    · exact hle
  · exact (length_liveFamily_le (List.kerase_sublist sid _)).trans hle
  · show (t.releaseByResource sub kind rid).2.liveFamily.length ≤ c
    unfold releaseByResource
    split
    · exact (length_liveFamily_le (List.kerase_sublist _ _)).trans hle
    · exact hle
  · exact hswept now

/-! ### Runs -/

theorem cap_call (t : Tracker) (c : Call) : (t.call c).cap = t.cap := by
  rcases c with ⟨now, a⟩ | ⟨now, sid⟩ | ⟨now, sub, kind, rid⟩ | sid | ⟨sub, kind, rid⟩ | now
  · show (t.tryAcquire now a).2.cap = t.cap
    rcases tryAcquire_cases t now a with heq | ⟨limit, heq⟩ | ⟨-, -, heq⟩ <;> rw [heq] <;> rfl
  · rfl
  · show (t.heartbeatByResource now sub kind rid).cap = t.cap
    unfold heartbeatByResource
    split <;> rfl
  · rfl
  · show (t.releaseByResource sub kind rid).2.cap = t.cap
    unfold releaseByResource
    split <;> rfl
  · rfl

theorem kept_of_runs {cap idleMs : ℕ} (h : Runs step anyStep (new cap idleMs) t) :
    t.Kept ∧ t.cap = cap := by
  refine Runs.invariant (P := fun t => t.Kept ∧ t.cap = cap) h ⟨kept_new cap idleMs, rfl⟩ ?_
  rintro v k w ⟨hv, hcap⟩ - hw
  obtain rfl : v.call k = w := Option.some.inj hw
  exact ⟨hv.call k, (cap_call v k).trans hcap⟩

/-- **The tracker over whole runs.** In any sequence of calls there are never more slots than
the cap, the key of an entry is its session, and no two slots are for the same viewer, kind and
resource; where every acquisition of a live kind carries the kind cap `c`, at most `c` live
slots exist; and an acquisition that is denied leaves exactly the swept map. -/
theorem reservations_of_runs (cap idleMs : ℕ) :
    (∀ t, Runs step anyStep (new cap idleMs) t →
      t.sessions.size ≤ cap ∧
      (∀ k s, t.sessions.lookup k = some s → s.sessionId = k) ∧
      (t.sessions.values.map Session.resource).Nodup) ∧
    (∀ c t, Runs step (LiveCapped c) (new cap idleMs) t → t.liveFamily.length ≤ c) ∧
    (∀ t, Runs step anyStep (new cap idleMs) t → ∀ now a limit,
      (t.tryAcquire now a).1 = .error limit → (t.tryAcquire now a).2 = t.sweep now) := by
  refine ⟨fun t ht => ?_, fun c t ht => ?_, fun t _ now a limit hdenied => ?_⟩
  · obtain ⟨hkept, hcap⟩ := kept_of_runs ht
    refine ⟨hcap ▸ hkept.size_le, fun k s hs => ?_, hkept.unique⟩
    exact hkept.keyed ⟨k, s⟩ (List.of_mem_dlookup hs)
  · refine (Runs.invariant (P := fun t => t.Kept ∧ t.liveFamily.length ≤ c) ht
      ⟨kept_new cap idleMs, Nat.zero_le _⟩ ?_).2
    rintro v k w ⟨hv, hle⟩ hguard hw
    obtain rfl : v.call k = w := Option.some.inj hw
    exact ⟨hv.call k, length_liveFamily_call hv hle hguard⟩
  · rcases tryAcquire_cases t now a with heq | ⟨limit', heq⟩ | ⟨-, -, heq⟩ <;> rw [heq] at hdenied ⊢
    · exact absurd hdenied (by simp)
    · exact absurd hdenied (by simp)

/-- A remux of the viewer `a` on channel `1`, under a kind cap of one. -/
def tuned (sessionId : String) : Acquire where
  sub := "a"
  sessionId := sessionId
  kind := .remux
  resourceId := "1"
  ip := none
  title := none
  kindCap := some 1
  replaceLive := false

/-- Two sessions of one viewer on one channel: the second takes the place of the first, under
both caps, and a viewer `b` is then refused. -/
theorem reservations_retuned : ∃ t, Runs step (LiveCapped 1) (new 1 0) t ∧
    t.sessions.keys = ["s2"] ∧ t.sessions.size ≤ 1 ∧ t.liveFamily.length ≤ 1 ∧
    (t.tryAcquire 5 { tuned "s3" with sub := "b" }).2 = t.sweep 5 :=
  have h : exec (guarded step (LiveCapped 1)) (new 1 0)
      [.tryAcquire 0 (tuned "s1"), .tryAcquire 5 (tuned "s2")] =
      some (((new 1 0).call (.tryAcquire 0 (tuned "s1"))).call (.tryAcquire 5 (tuned "s2"))) := rfl
  have hruns := runs_of_exec_guarded h
  ⟨_, hruns, rfl, ((reservations_of_runs 1 0).1 _ hruns.forget).1,
    (reservations_of_runs 1 0).2.1 1 _ hruns,
    (reservations_of_runs 1 0).2.2 _ hruns.forget 5 _ _ rfl⟩

end Tracker

end EmeraldExchange.Iptv
