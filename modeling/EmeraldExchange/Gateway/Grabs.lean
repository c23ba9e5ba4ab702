import EmeraldExchange.Gateway.DiskLedger

/-!
# Grabs that share a ledger

The grabs of `crates/gateway/src/arr/sonarr.rs` and `radarr.rs` on one root folder. A grab looks
at the available bytes, reserves what it has planned, and holds the reservation (`Held`) until
it ends, when the drop of the held value releases it. Between two calls any time can pass.

* `Disk.Safe` – what the ledger is for: what is pending covers the
  reservations that are neither expired nor released, a reservation that succeeds leaves the
  floor free, and a release takes nothing from another grab;
* `Disk.MeetsOwn` – the condition on a release under which it does: the
  first live entry of its amount is its own, or there is no live entry at all.
-/

namespace EmeraldExchange.Gateway

/-- **The grabs on one folder**, the ledger they share and the clock they read. The entries of
`held` are the reservations that their grabs have not released yet, in the order they were
made. -/
structure Disk where
  ledger : Ledger
  clock : ℕ
  held : List Entry

namespace Disk

inductive Act
  /-- Time passes. -/
  | tick (d : ℕ)
  /-- A grab looks at what is available. -/
  | check
  /-- A grab reserves; the clock moves on by `d` within the call. -/
  | reserve (grab : ℕ) (freeSpace bytes : ℤ) (d : ℕ)
  /-- A grab ends. -/
  | release (grab : ℕ)
  deriving DecidableEq

section system

variable (path : String)

def entries (s : Disk) : List Entry := s.ledger.entries path

/-- The bytes that the next check takes to be promised. -/
def pending (s : Disk) : ℤ := (s.ledger.pendingBytes s.clock ⟨path, 0⟩).1

/-- **One step.** A grab has at most one reservation at a time. -/
def step (s : Disk) : Act → Option Disk
  | .tick d => some { s with clock := s.clock + d }
  | .check => some { s with ledger := (s.ledger.availableBytes s.clock ⟨path, 0⟩).2 }
  | .reserve grab freeSpace bytes d =>
    if grab ∈ s.held.map Entry.grab then none
    else
      let later := s.clock + d
      let (ok, l) := s.ledger.reserve s.clock later grab ⟨path, freeSpace⟩ bytes
      let made := if ok then [⟨bytes, later + s.ledger.ttl, grab⟩] else []
      some { ledger := l, clock := later, held := s.held ++ made }
  | .release grab =>
    match s.held.find? (·.grab = grab) with
    | none => none
    | some e => some
        { s with
          ledger := s.ledger.release s.clock ⟨path, 0⟩ e.bytes
          held := s.held.filter (·.grab ≠ grab) }

/-- What is pending covers the reservations that are neither expired nor released. -/
def Covered (s : Disk) : Prop := total (unexpired s.clock s.held) ≤ s.pending path

instance (s : Disk) : Decidable (s.Covered path) :=
  inferInstanceAs (Decidable (total (unexpired s.clock s.held) ≤ s.pending path))

/-- What a step has to keep: the floor, where it reserves, and what others have reserved, where
it releases. -/
def Spares (s : Disk) (a : Act) (t : Disk) : Prop :=
  match a with
  | .reserve grab freeSpace bytes d =>
    (s.ledger.reserve s.clock (s.clock + d) grab ⟨path, freeSpace⟩ bytes).1 = true →
      s.ledger.minFree ≤ freeSpace - t.pending path
  | .release grab =>
    ∀ e ∈ unexpired s.clock (s.entries path), e.grab ≠ grab → e ∈ t.entries path
  | _ => True

/-- **What the ledger is for**, in a state and in the steps from it that meet a guard. -/
def Safe (guard : Disk → Act → Prop) (s : Disk) : Prop :=
  s.Covered path ∧ ∀ a t, guard s a → s.step path a = some t → s.Spares path a t

/-- A release meets its own entry first, or no live entry at all. -/
def MeetsOwn (s : Disk) : Act → Prop
  | .release grab =>
    ∀ e ∈ s.held.find? (·.grab = grab),
      unexpired s.clock (s.entries path) = [] ∨
        ((unexpired s.clock (s.entries path)).find? (·.bytes = e.bytes)).map Entry.grab = some grab
  | _ => True

instance (s : Disk) (a : Act) : Decidable (s.MeetsOwn path a) := by
  cases a <;> unfold MeetsOwn <;> infer_instance

end system

end Disk

/-! ### The expiry of entries -/

section expiry

variable {c c' : ℕ} {es es' : List Entry}

theorem mem_unexpired {e : Entry} : e ∈ unexpired c es ↔ e ∈ es ∧ c < e.expires := by
  simp [unexpired]

theorem unexpired_unexpired (h : c ≤ c') : unexpired c' (unexpired c es) = unexpired c' es := by
  rw [unexpired, unexpired, unexpired, List.filter_filter]
  refine List.filter_congr fun e _ => ?_
  rw [Bool.eq_iff_iff]
  simp only [Bool.and_eq_true, decide_eq_true_eq]
  omega

theorem unexpired_congr (h : c ≤ c') (heq : unexpired c es = unexpired c es') :
    unexpired c' es = unexpired c' es' := by
  rw [← unexpired_unexpired h, heq, unexpired_unexpired h]

theorem unexpired_append (c : ℕ) (es es' : List Entry) :
    unexpired c (es ++ es') = unexpired c es ++ unexpired c es' := List.filter_append ..

theorem total_le_of_sublist (hsub : es.Sublist es') (hpos : ∀ e ∈ es', 0 < e.bytes) :
    total es ≤ total es' := by
  induction hsub with
  | slnil => exact le_rfl
  | cons a _ ih =>
    have ha := hpos a List.mem_cons_self
    have := ih fun e he => hpos e (List.mem_cons_of_mem _ he)
    simp only [total, List.map_cons, List.sum_cons] at this ⊢
    omega
  | cons_cons a _ ih =>
    have := ih fun e he => hpos e (List.mem_cons_of_mem _ he)
    simp only [total, List.map_cons, List.sum_cons] at this ⊢
    omega

theorem eraseP_eq_erase {p : Entry → Bool} {e : Entry} (h : es.find? p = some e) :
    es.eraseP p = es.erase e := by
  induction es with
  | nil => simp at h
  | cons a es ih =>
    by_cases hp : p a
    · obtain rfl : a = e := by simpa [hp] using h
      simp [hp]
    · rw [List.find?_cons_of_neg hp] at h
      have hne : a ≠ e := fun hae => hp (hae ▸ List.find?_some h)
      rw [List.eraseP_cons_of_neg hp, ih h, List.erase_cons_tail (by simpa using hne)]

end expiry

namespace Disk

variable {path : String} {s t : Disk}

/-! ### What the guarded steps keep -/

/-- **The ledger tracks the grabs**: its live entries are the live reservations, in order. -/
structure Tracks (path : String) (s : Disk) : Prop where
  same : unexpired s.clock (s.entries path) = unexpired s.clock s.held
  entriesPos : ∀ e ∈ s.entries path, 0 < e.bytes
  heldPos : ∀ e ∈ s.held, 0 < e.bytes
  nodup : (s.held.map Entry.grab).Nodup

theorem pending_eq (path : String) (s : Disk) :
    s.pending path = total (unexpired s.clock (s.entries path)) := Ledger.fst_live ..

theorem Tracks.covered (h : s.Tracks path) : s.Covered path := by
  rw [Covered, pending_eq, h.same]

theorem Tracks.tick (h : s.Tracks path) (d : ℕ) :
    Tracks path { s with clock := s.clock + d } where
  same := unexpired_congr (Nat.le_add_right ..) h.same
  entriesPos := h.entriesPos
  heldPos := h.heldPos
  nodup := h.nodup

theorem Tracks.check (h : s.Tracks path) :
    Tracks path { s with ledger := (s.ledger.availableBytes s.clock ⟨path, 0⟩).2 } := by
  have hentries : (s.ledger.availableBytes s.clock ⟨path, 0⟩).2.entries path =
      unexpired s.clock (s.entries path) := Ledger.entries_live ..
  refine ⟨?_, fun e he => ?_, h.heldPos, h.nodup⟩
  · show unexpired s.clock ((s.ledger.availableBytes s.clock ⟨path, 0⟩).2.entries path) = _
    rw [hentries, unexpired_unexpired le_rfl, h.same]
  · change e ∈ (s.ledger.availableBytes s.clock ⟨path, 0⟩).2.entries path at he
    rw [hentries] at he
    exact h.entriesPos e (mem_unexpired.mp he).1

theorem Tracks.reserve (h : s.Tracks path) {grab d : ℕ} {freeSpace bytes : ℤ}
    (ht : s.step path (.reserve grab freeSpace bytes d) = some t) : t.Tracks path := by
  simp only [step] at ht
  obtain ⟨hfree, ht⟩ := Option.ite_none_left_eq_some.mp ht
  obtain rfl := Option.some.inj ht
  have hle : s.clock ≤ s.clock + d := Nat.le_add_right ..
  rcases Ledger.reserve_cases s.ledger s.clock (s.clock + d) grab ⟨path, freeSpace⟩ bytes with
    ⟨hno, hentries⟩ | ⟨hyes, hpos, -, hentries⟩
  · -- refused: the entries are what they were, but for the expired ones
    refine ⟨?_, fun e he => ?_, ?_, ?_⟩
    · simp only [entries, hno, Bool.false_eq_true, if_false, List.append_nil]
      rcases hentries with hentries | hentries <;> rw [hentries]
      · exact unexpired_congr hle h.same
      · rw [unexpired_unexpired hle]
        exact unexpired_congr hle h.same
    · simp only [entries] at he
      rcases hentries with hentries | hentries <;> rw [hentries] at he
      · exact h.entriesPos e he
      · exact h.entriesPos e (mem_unexpired.mp he).1
    · simpa [hno] using h.heldPos
    · simpa [hno] using h.nodup
  · -- made: the new entry is the last one of both
    refine ⟨?_, fun e he => ?_, fun e he => ?_, ?_⟩
    · simp only [entries, hyes, if_true]
      rw [hentries, unexpired_append, unexpired_append, unexpired_unexpired hle]
      exact congrArg (· ++ _) (unexpired_congr hle h.same)
    · simp only [entries] at he
      rw [hentries] at he
      rcases List.mem_append.mp he with he | he
      · exact h.entriesPos e (mem_unexpired.mp he).1
      · obtain rfl := List.mem_singleton.mp he
        exact hpos
    · simp only [hyes, if_true] at he
      rcases List.mem_append.mp he with he | he
      · exact h.heldPos e he
      · obtain rfl := List.mem_singleton.mp he
        exact hpos
    · simp only [hyes, if_true, List.map_append, List.map_cons, List.map_nil]
      exact List.nodup_append'.mpr ⟨h.nodup, List.nodup_singleton _, by simpa using hfree⟩

theorem Tracks.eq_of_grab (h : s.Tracks path) {e e' : Entry} (he : e ∈ s.held) (he' : e' ∈ s.held)
    (hgrab : e.grab = e'.grab) : e = e' :=
  List.inj_on_of_nodup_map h.nodup he he' hgrab

/-- **A release that meets its own entry** drops that entry from the live ones, and no other. -/
theorem Tracks.releaseFrom_eq (h : s.Tracks path) {grab : ℕ} {e : Entry}
    (hfind : s.held.find? (·.grab = grab) = some e) (hown : s.MeetsOwn path (.release grab)) :
    releaseFrom e.bytes (unexpired s.clock (s.entries path)) =
      (unexpired s.clock s.held).filter (·.grab ≠ grab) := by
  rcases hown e hfind with hnil | hmeets
  · rw [← h.same, hnil]
    simp [releaseFrom, trim]
  · obtain ⟨e', he', hgrab⟩ := Option.map_eq_some_iff.mp hmeets
    have hmem' := List.mem_of_find?_eq_some he'
    rw [h.same] at he' hmem' ⊢
    have hbytes : e'.bytes = e.bytes := by simpa using List.find?_some he'
    have hany : (unexpired s.clock s.held).any (·.bytes = e.bytes) :=
      List.any_eq_true.mpr ⟨e', hmem', decide_eq_true hbytes⟩
    have hnodup : (unexpired s.clock s.held).Nodup :=
      (List.Nodup.of_map _ h.nodup).sublist List.filter_sublist
    rw [releaseFrom, if_pos hany, eraseP_eq_erase he', hnodup.erase_eq_filter]
    refine List.filter_congr fun x hx => ?_
    have hiff : x = e' ↔ x.grab = grab := by
      refine ⟨fun hxe => hxe ▸ hgrab, fun hxg => ?_⟩
      exact h.eq_of_grab (mem_unexpired.mp hx).1 (mem_unexpired.mp hmem').1 (hxg.trans hgrab.symm)
    by_cases hx' : x = e'
    · simp [hx', hgrab]
    · have := mt hiff.mpr hx'
      simp [hx', this]

theorem Tracks.release (h : s.Tracks path) {grab : ℕ} (hown : s.MeetsOwn path (.release grab))
    (ht : s.step path (.release grab) = some t) :
    t.Tracks path ∧ t.entries path = (unexpired s.clock s.held).filter (·.grab ≠ grab) := by
  simp only [step] at ht
  split at ht
  next => exact absurd ht (by simp)
  next e hfind =>
    obtain rfl := Option.some.inj ht
    have hpos := h.heldPos e (List.mem_of_find?_eq_some hfind)
    have hentries : (s.ledger.release s.clock ⟨path, 0⟩ e.bytes).entries path =
        (unexpired s.clock s.held).filter (·.grab ≠ grab) :=
      (Ledger.entries_release hpos s.clock ⟨path, 0⟩).trans (h.releaseFrom_eq hfind hown)
    refine ⟨⟨?_, fun x hx => ?_, fun x hx => ?_, ?_⟩, hentries⟩
    · show unexpired s.clock ((s.ledger.release s.clock ⟨path, 0⟩ e.bytes).entries path) =
        unexpired s.clock (s.held.filter (·.grab ≠ grab))
      rw [hentries, unexpired, unexpired, unexpired, List.filter_filter, List.filter_filter,
        List.filter_filter]
      refine List.filter_congr fun x _ => ?_
      cases decide (s.clock < x.expires) <;> simp
    · change x ∈ (s.ledger.release s.clock ⟨path, 0⟩ e.bytes).entries path at hx
      rw [hentries] at hx
      exact h.heldPos x (mem_unexpired.mp (List.mem_of_mem_filter hx)).1
    · exact h.heldPos x (List.mem_of_mem_filter hx)
    · exact h.nodup.sublist (List.filter_sublist.map _)

/-- **Each guarded step keeps the ledger tracking the grabs.** -/
theorem Tracks.step (h : s.Tracks path) {a : Act} (hown : s.MeetsOwn path a)
    (ht : s.step path a = some t) : t.Tracks path := by
  rcases a with d | _ | ⟨grab, freeSpace, bytes, d⟩ | grab
  · obtain rfl := Option.some.inj ht
    exact h.tick d
  · obtain rfl := Option.some.inj ht
    exact h.check
  · exact h.reserve ht
  · exact (h.release hown ht).1

theorem floor_of_reserve (hpos : ∀ e ∈ s.entries path, 0 < e.bytes) {grab d : ℕ}
    {freeSpace bytes : ℤ} (ht : s.step path (.reserve grab freeSpace bytes d) = some t) :
    s.Spares path (.reserve grab freeSpace bytes d) t := by
  intro hok
  simp only [Disk.step] at ht
  obtain ⟨-, ht⟩ := Option.ite_none_left_eq_some.mp ht
  obtain rfl := Option.some.inj ht
  rcases Ledger.reserve_cases s.ledger s.clock (s.clock + d) grab ⟨path, freeSpace⟩ bytes with
    ⟨hno, -⟩ | ⟨-, hbytes, hfloor, hentries⟩
  · rw [hno] at hok
    exact absurd hok (by simp)
  · -- what is pending after the call is at most what was counted and the new amount
    rw [pending_eq, entries]
    simp only [hentries]
    have hnonneg : ∀ e ∈ unexpired s.clock (s.ledger.entries path) ++
        [⟨bytes, s.clock + d + s.ledger.ttl, grab⟩], 0 < e.bytes := by
      intro e he
      rcases List.mem_append.mp he with he | he
      · exact hpos e (mem_unexpired.mp he).1
      · obtain rfl := List.mem_singleton.mp he
        exact hbytes
    have hle : total (unexpired (s.clock + d) (unexpired s.clock (s.ledger.entries path) ++
        [⟨bytes, s.clock + d + s.ledger.ttl, grab⟩])) ≤ _ :=
      total_le_of_sublist List.filter_sublist hnonneg
    have hsum : total (unexpired s.clock (s.ledger.entries path) ++
        [⟨bytes, s.clock + d + s.ledger.ttl, grab⟩]) =
        total (unexpired s.clock (s.ledger.entries path)) + bytes := by simp [total]
    simp only at hfloor
    omega

def start (minFree : ℤ) (ttl : ℕ) : Disk := ⟨Ledger.withTtl minFree ttl, 0, []⟩

/-- **The ledger keeps its promises in every run whose releases meet their own entries.** -/
theorem safe_of_runs {minFree : ℤ} {ttl : ℕ}
    (h : Runs (step path) (MeetsOwn path) (start minFree ttl) s) : s.Safe path (MeetsOwn path) := by
  have htracks : s.Tracks path := by
    refine Runs.invariant (P := Tracks path) h ?_ fun v a w hv hguard hw => hv.step hguard hw
    exact ⟨rfl, by simp [start, entries], by simp [start], List.nodup_nil⟩
  refine ⟨htracks.covered, fun a t hguard ht => ?_⟩
  rcases a with d | _ | ⟨grab, freeSpace, bytes, d⟩ | grab
  · trivial
  · trivial
  · exact floor_of_reserve htracks.entriesPos ht
  · intro e he hne
    rw [(htracks.release hguard ht).2, ← htracks.same]
    exact List.mem_filter.mpr ⟨he, by simpa using hne⟩

/-- Two grabs, one after the other, on a folder with 50 bytes above the floor. -/
theorem safe_twoGrabs : ∃ s, Runs (step "/data/tv") (MeetsOwn "/data/tv") (start 100 900) s ∧
    s.entries "/data/tv" = [⟨20, 901, 2⟩] ∧ s.Safe "/data/tv" (MeetsOwn "/data/tv") :=
  have h : ∃ s, exec (guarded (step "/data/tv") (MeetsOwn "/data/tv")) (start 100 900)
      [.reserve 1 150 30 0, .reserve 2 150 20 1, .release 1] = some s ∧
      s.entries "/data/tv" = [⟨20, 901, 2⟩] := ⟨_, rfl, rfl⟩
  let ⟨s, hs, hentries⟩ := h
  have hruns := runs_of_exec_guarded hs
  ⟨s, hruns, hentries, safe_of_runs hruns⟩

/-- **A release that comes too late takes another grab's reservation.** Grab 1 reserves 50 bytes
and outlives its reservation; grab 2 reserves 30; the drop of what grab 1 held then leaves
nothing pending. -/
theorem not_safe_late : ∃ s, Runs (step "/data/tv") anyStep (start 100 900) s ∧
    ¬s.Safe "/data/tv" anyStep :=
  have hexec : ∃ s, exec (step "/data/tv") (start 100 900)
      [.reserve 1 150 50 0, .tick 900, .reserve 2 150 30 0, .release 1] = some s ∧
      ¬s.Safe "/data/tv" anyStep := ⟨_, rfl, fun h => absurd h.1 (by decide)⟩
  exists_runs_of_exec hexec

end Disk

end EmeraldExchange.Gateway
