import EmeraldExchange.Gateway.ItemLocks
import EmeraldExchange.Lib.Runs
import EmeraldExchange.Lib.Table

/-!
# Single flight

`SingleFlight` in `crates/gateway/src/suggestions.rs`: concurrent callers with one key await the
result of one spawned call. The first of them puts a shared future into a map, the others find it
there, and the first to resume takes it out.

A caller gives up the processor at one point only, where it awaits the shared future, and may be
dropped there. The call is a task of its own and goes on; if it panics, so does every caller that
resumes. What a caller does between two such points is one action, except that it locks the map
anew to take the entry out (`Act`).

The entry of a call stays until a caller that awaited it has taken it out
(`Inv`), so at most one call of a key runs in every run. But
nobody takes it out if all of them are dropped, or if the call panics; and until somebody does, who
comes next shares a call that is over.
-/

namespace EmeraldExchange.Gateway.SingleFlight

/-! ### The state -/

inductive Outcome (V : Type)
  | running
  | finished (v : V)
  | panicked
  deriving DecidableEq

/-- **A spawned call.** -/
structure Flight (K V : Type) where
  key : K
  outcome : Outcome V
  deriving DecidableEq

/-- Where a caller is in `run`. -/
inductive Stage (V : Type)
  /-- It awaits the shared future. -/
  | waiting
  /-- It has the value, and will look at the map again. -/
  | woken (v : V)
  | returned (v : V)
  | unwound
  | dropped
  deriving DecidableEq

/-- **A caller**, the flight it shares, and whether that was running when the caller came. -/
structure Caller (K V : Type) where
  key : K
  flight : ℕ
  joined : Bool
  stage : Stage V
  deriving DecidableEq

variable {K V : Type}

/-- **The state**: the map, and all calls and callers there have been. -/
structure St (K V : Type) where
  flights : Table K ℕ
  spawned : List (Flight K V)
  callers : List (Caller K V)

def St.new : St K V := ⟨∅, [], []⟩

def St.outcome (s : St K V) (f : ℕ) : Option (Outcome V) := (s.spawned[f]?).map Flight.outcome

def Outcome.isRunning : Outcome V → Bool
  | .running => true
  | _ => false

inductive Act (K V : Type)
  /-- A caller comes, and shares a flight or starts one. -/
  | enter (k : K)
  | finish (f : ℕ) (v : V)
  | panic (f : ℕ)
  /-- A caller resumes, as its call is over. -/
  | wake (i : ℕ)
  /-- It takes the entry out, if that is still the one of its flight. -/
  | clear (i : ℕ)
  | drop (i : ℕ)

def settle (f : ℕ) (o : Outcome V) (s : St K V) : Option (St K V) :=
  match s.spawned[f]? with
  | some ⟨k, .running⟩ => some { s with spawned := s.spawned.set f ⟨k, o⟩ }
  | _ => none

variable [DecidableEq K]

def enter (k : K) (s : St K V) : St K V :=
  match s.flights.lookup k with
  | some f => { s with
      callers := s.callers ++ [⟨k, f, (s.outcome f).any Outcome.isRunning, .waiting⟩] }
  | none =>
    { flights := s.flights.insert k s.spawned.length
      spawned := s.spawned ++ [⟨k, .running⟩]
      callers := s.callers ++ [⟨k, s.spawned.length, true, .waiting⟩] }

def resumed : Option (Outcome V) → Option (Stage V)
  | some (.finished v) => some (.woken v)
  | some .panicked => some .unwound
  | _ => none

/-- **One step.** -/
def step (s : St K V) : Act K V → Option (St K V)
  | .enter k => some (enter k s)
  | .finish f v => settle f (.finished v) s
  | .panic f => settle f .panicked s
  | .wake i =>
    match s.callers[i]? with
    | some ⟨k, f, joined, .waiting⟩ => (resumed (s.outcome f)).map fun stage =>
        { s with callers := s.callers.set i ⟨k, f, joined, stage⟩ }
    | _ => none
  | .clear i =>
    match s.callers[i]? with
    | some ⟨k, f, joined, .woken v⟩ => some { s with
        flights := if s.flights.lookup k = some f then s.flights.erase k else s.flights
        callers := s.callers.set i ⟨k, f, joined, .returned v⟩ }
    | _ => none
  | .drop i =>
    match s.callers[i]? with
    | some ⟨k, f, joined, .waiting⟩ => some { s with
        callers := s.callers.set i ⟨k, f, joined, .dropped⟩ }
    | _ => none

/-! ### What is expected of it -/

def Returned (s : St K V) (f : ℕ) (v : V) : Prop :=
  ∃ c ∈ s.callers, c.flight = f ∧ c.stage = .returned v

/-- **Only running work is shared**: of a key at most one call runs, what a caller is given its
flight has produced, and the flight of a caller was running when it came, be it that it was started
for this caller; so when none runs, who comes starts one. -/
structure SharesRunning (s : St K V) : Prop where
  alone : ∀ (f g : ℕ) (k : K), s.spawned[f]? = some ⟨k, .running⟩ →
    s.spawned[g]? = some ⟨k, .running⟩ → f = g
  produced : ∀ f v, Returned s f v → s.outcome f = some (.finished v)
  joined : ∀ c ∈ s.callers, c.joined = true

/-- **A caller comes when the calls of its key that are over are done with**: each has finished, and
one of those who awaited it has been given its value. -/
def DoneWith (s : St K V) : Act K V → Prop
  | .enter k => ∀ (f : ℕ) (o : Outcome V), s.spawned[f]? = some ⟨k, o⟩ → o ≠ .running →
      ∃ v, Returned s f v
  | _ => True

/-! ### What each step does -/

section steps

variable {s t : St K V} {a : Act K V}

omit [DecidableEq K] in
theorem settle_eq_some {f : ℕ} {o : Outcome V} (h : settle f o s = some t) :
    ∃ k, s.spawned[f]? = some ⟨k, .running⟩ ∧
      t = { s with spawned := s.spawned.set f ⟨k, o⟩ } := by
  unfold settle at h
  split at h
  · rename_i k hf
    exact ⟨k, hf, (Option.some.inj h).symm⟩
  · cases h

/-- A caller that waits goes on, or is dropped. -/
structure Leaves (s t : St K V) (i : ℕ) (k : K) (f : ℕ) (joined : Bool) (stage : Stage V) :
    Prop where
  waiting : s.callers[i]? = some ⟨k, f, joined, .waiting⟩
  eq : t = { s with callers := s.callers.set i ⟨k, f, joined, stage⟩ }
  woken : ∀ v, stage = .woken v → s.outcome f = some (.finished v)
  not_returned : ∀ v, stage ≠ .returned v

theorem step_wake {i : ℕ} (h : step s (.wake i) = some t) :
    ∃ k f joined stage, Leaves s t i k f joined stage := by
  unfold step at h
  dsimp only at h
  split at h
  · rename_i k f joined hwaiting
    obtain ⟨stage, hstage, rfl⟩ := Option.map_eq_some_iff.mp h
    refine ⟨k, f, joined, stage, hwaiting, rfl, ?_, ?_⟩
    · rintro v rfl
      unfold resumed at hstage
      split at hstage
      · rename_i w houtcome
        obtain rfl := Stage.woken.inj (Option.some.inj hstage)
        exact houtcome
      · cases Option.some.inj hstage
      · cases hstage
    · rintro v rfl
      unfold resumed at hstage
      split at hstage
      · cases Option.some.inj hstage
      · cases Option.some.inj hstage
      · cases hstage
  · cases h

theorem step_drop {i : ℕ} (h : step s (.drop i) = some t) :
    ∃ k f joined stage, Leaves s t i k f joined stage := by
  unfold step at h
  dsimp only at h
  split at h
  · rename_i k f joined hwaiting
    exact ⟨k, f, joined, .dropped, hwaiting, (Option.some.inj h).symm, by rintro v ⟨⟩,
      by rintro v ⟨⟩⟩
  · cases h

theorem step_clear {i : ℕ} (h : step s (.clear i) = some t) :
    ∃ k f joined v, s.callers[i]? = some ⟨k, f, joined, .woken v⟩ ∧
      t = { s with
        flights := if s.flights.lookup k = some f then s.flights.erase k else s.flights
        callers := s.callers.set i ⟨k, f, joined, .returned v⟩ } := by
  unfold step at h
  dsimp only at h
  split at h
  · rename_i k f joined v hwoken
    exact ⟨k, f, joined, v, hwoken, (Option.some.inj h).symm⟩
  · cases h

/-! ### The entry of a call stays until a caller takes it out -/

/-- **The map and the calls**: an entry is of a call of its key, a call that has given nobody its
value has its entry, one that has done so has none, and only what has finished gives a value. -/
structure Inv (s : St K V) : Prop where
  keyed : ∀ (k : K) (f : ℕ), s.flights.lookup k = some f →
    ∃ o, s.spawned[f]? = some ⟨k, o⟩
  kept : ∀ (f : ℕ) (k : K) (o : Outcome V), s.spawned[f]? = some ⟨k, o⟩ →
    (∀ v, ¬ Returned s f v) → s.flights.lookup k = some f
  gone : ∀ f v k, Returned s f v → s.flights.lookup k ≠ some f
  caller : ∀ c ∈ s.callers, ∃ o, s.spawned[c.flight]? = some ⟨c.key, o⟩ ∧
    ∀ v, c.stage = .woken v ∨ c.stage = .returned v → o = .finished v

theorem inv_new : Inv (St.new : St K V) where
  keyed k f h := by
    have hnone : (St.new : St K V).flights.lookup k = none := AList.lookup_empty k
    rw [hnone] at h
    cases h
  kept f k o h := by cases h
  gone f v k h := by
    obtain ⟨c, hc, -⟩ := h
    cases hc
  caller c hc := by cases hc

theorem Inv.finished (h : Inv s) {f : ℕ} {v : V} (hret : Returned s f v) :
    ∃ k, s.spawned[f]? = some ⟨k, .finished v⟩ := by
  obtain ⟨c, hc, rfl, hstage⟩ := hret
  obtain ⟨o, ho, hfin⟩ := h.caller c hc
  rw [hfin v (Or.inr hstage)] at ho
  exact ⟨c.key, ho⟩

omit [DecidableEq K] in
theorem returned_append {c : Caller K V} (hc : ∀ v, c.stage ≠ .returned v) {f : ℕ} {v : V}
    (hcallers : t.callers = s.callers ++ [c]) : Returned t f v ↔ Returned s f v := by
  rw [Returned, Returned, hcallers]
  constructor
  · rintro ⟨d, hd, hf, hstage⟩
    rcases List.mem_append.mp hd with hd | hd
    · exact ⟨d, hd, hf, hstage⟩
    · obtain rfl := List.mem_singleton.mp hd
      exact absurd hstage (hc v)
  · rintro ⟨d, hd, h⟩
    exact ⟨d, List.mem_append_left _ hd, h⟩

omit [DecidableEq K] in
theorem returned_set {i : ℕ} {c d : Caller K V} (hc : s.callers[i]? = some c)
    (hnot : ∀ v, c.stage ≠ .returned v) {f : ℕ} {v : V}
    (hcallers : t.callers = s.callers.set i d) :
    Returned t f v ↔ Returned s f v ∨ (d.flight = f ∧ d.stage = .returned v) := by
  rw [Returned, Returned, hcallers]
  constructor
  · rintro ⟨e, he, hf, hstage⟩
    rcases List.mem_or_eq_of_mem_set he with hold | rfl
    · exact Or.inl ⟨e, hold, hf, hstage⟩
    · exact Or.inr ⟨hf, hstage⟩
  · rintro (⟨e, he, hf, hstage⟩ | ⟨hf, hstage⟩)
    · have hne : e ≠ c := by
        rintro rfl
        exact hnot v hstage
      exact ⟨e, ItemLocks.mem_set_of_ne hc he hne d, hf, hstage⟩
    · exact ⟨d, List.mem_set (List.getElem?_eq_some_iff.mp hc).1 d, hf, hstage⟩

theorem Inv.enter (h : Inv s) (k : K) : Inv (enter k s) := by
  unfold SingleFlight.enter
  cases hlookup : s.flights.lookup k with
  | some f =>
    -- the flights and the calls are as they were
    have hret {t : St K V} {g : ℕ} {v : V} (ht : t.callers = s.callers ++
        [⟨k, f, (s.outcome f).any Outcome.isRunning, .waiting⟩]) :
        Returned t g v ↔ Returned s g v := returned_append (by rintro v ⟨⟩) ht
    refine ⟨h.keyed, fun g k' o hg hnot => h.kept g k' o hg fun v hv => hnot v ((hret rfl).mpr hv),
      fun g v k' hv => h.gone g v k' ((hret rfl).mp hv), fun c hc => ?_⟩
    rcases List.mem_append.mp hc with hc | hc
    · exact h.caller c hc
    · obtain rfl := List.mem_singleton.mp hc
      obtain ⟨o, ho⟩ := h.keyed k f hlookup
      exact ⟨o, ho, by rintro v (h | h) <;> cases h⟩
  | none =>
    have hret {t : St K V} {g : ℕ} {v : V}
        (ht : t.callers = s.callers ++ [⟨k, s.spawned.length, true, .waiting⟩]) :
        Returned t g v ↔ Returned s g v := returned_append (by rintro v ⟨⟩) ht
    have hnew : (s.spawned ++ [⟨k, .running⟩])[s.spawned.length]? = some ⟨k, .running⟩ := by
      rw [List.getElem?_append_right le_rfl, Nat.sub_self]
      rfl
    have hold {g : ℕ} {x : Flight K V} (hg : s.spawned[g]? = some x) :
        (s.spawned ++ [⟨k, .running⟩])[g]? = some x := by
      rw [List.getElem?_append_left (List.getElem?_eq_some_iff.mp hg).1, hg]
    refine ⟨fun k' f hf => ?_, fun g k' o hg hnot => ?_, fun g v k' hv => ?_, fun c hc => ?_⟩
    · by_cases hk : k' = k
      · subst hk
        rw [AList.lookup_insert] at hf
        obtain rfl := Option.some.inj hf
        exact ⟨_, hnew⟩
      · rw [AList.lookup_insert_ne hk] at hf
        obtain ⟨o, ho⟩ := h.keyed k' f hf
        exact ⟨o, hold ho⟩
    · rcases Nat.lt_or_ge g s.spawned.length with hlt | hge
      · rw [List.getElem?_append_left hlt] at hg
        have hkept := h.kept g k' o hg fun v hv => hnot v ((hret rfl).mpr hv)
        have hk : k' ≠ k := by
          rintro rfl
          rw [hlookup] at hkept
          cases hkept
        exact (AList.lookup_insert_ne hk).trans hkept
      · obtain ⟨rfl, rfl⟩ : g = s.spawned.length ∧ k' = k := by
          have hlen := (List.getElem?_eq_some_iff.mp hg).1
          rw [List.length_append, List.length_singleton] at hlen
          obtain rfl : g = s.spawned.length := by omega
          exact ⟨rfl, congrArg Flight.key (Option.some.inj (hg.symm.trans hnew))⟩
        exact AList.lookup_insert _
    · intro hf
      obtain ⟨k₀, hfin⟩ := h.finished ((hret rfl).mp hv)
      have hlt := (List.getElem?_eq_some_iff.mp hfin).1
      by_cases hk : k' = k
      · subst hk
        rw [AList.lookup_insert] at hf
        exact absurd (Option.some.inj hf) (Nat.ne_of_gt hlt)
      · rw [AList.lookup_insert_ne hk] at hf
        exact h.gone g v k' ((hret rfl).mp hv) hf
    · rcases List.mem_append.mp hc with hc | hc
      · obtain ⟨o, ho, hfin⟩ := h.caller c hc
        exact ⟨o, hold ho, hfin⟩
      · obtain rfl := List.mem_singleton.mp hc
        exact ⟨.running, hnew, by rintro v (h | h) <;> cases h⟩

theorem Inv.settle (h : Inv s) {f : ℕ} {o : Outcome V} (hstep : settle f o s = some t) :
    Inv t := by
  obtain ⟨k, hf, rfl⟩ := settle_eq_some hstep
  have hlt := (List.getElem?_eq_some_iff.mp hf).1
  have hself : (s.spawned.set f ⟨k, o⟩)[f]? = some ⟨k, o⟩ := List.getElem?_set_self hlt
  have hne {g : ℕ} (hg : f ≠ g) : (s.spawned.set f ⟨k, o⟩)[g]? = s.spawned[g]? :=
    List.getElem?_set_ne hg
  refine ⟨fun k' g hg => ?_, fun g k' o' hg hnot => ?_, h.gone, fun c hc => ?_⟩
  · obtain ⟨o', ho'⟩ := h.keyed k' g hg
    by_cases hfg : f = g
    · subst hfg
      obtain ⟨rfl, -⟩ := Flight.mk.inj (Option.some.inj (hf.symm.trans ho'))
      exact ⟨o, hself⟩
    · exact ⟨o', (hne hfg).trans ho'⟩
  · by_cases hfg : f = g
    · subst hfg
      obtain ⟨rfl, -⟩ := Flight.mk.inj (Option.some.inj (hself.symm.trans hg))
      exact h.kept f k .running hf hnot
    · exact h.kept g k' o' ((hne hfg).symm.trans hg) hnot
  · obtain ⟨o', ho', hfin⟩ := h.caller c hc
    by_cases hfg : f = c.flight
    · subst hfg
      obtain ⟨hk, rfl⟩ := Flight.mk.inj (Option.some.inj (hf.symm.trans ho'))
      refine ⟨o, by rw [← hk]; exact hself, fun v hv => ?_⟩
      cases hfin v hv
    · exact ⟨o', (hne hfg).trans ho', hfin⟩

theorem Inv.leaves (h : Inv s) {i f : ℕ} {k : K} {joined : Bool} {stage : Stage V}
    (hleaves : Leaves s t i k f joined stage) : Inv t := by
  obtain ⟨hwaiting, rfl, hwoken, hnot⟩ := hleaves
  have hret {g : ℕ} {v : V} : Returned { s with callers := s.callers.set i ⟨k, f, joined, stage⟩ }
      g v ↔ Returned s g v := by
    rw [returned_set hwaiting (by rintro v ⟨⟩) rfl]
    exact or_iff_left fun h => hnot v h.2
  refine ⟨h.keyed, fun g k' o hg hno => h.kept g k' o hg fun v hv => hno v (hret.mpr hv),
    fun g v k' hv => h.gone g v k' (hret.mp hv), fun c hc => ?_⟩
  rcases List.mem_or_eq_of_mem_set hc with hc | rfl
  · exact h.caller c hc
  · obtain ⟨o, ho, -⟩ := h.caller _ (List.mem_of_getElem? hwaiting)
    refine ⟨o, ho, ?_⟩
    rintro v (hv | hv)
    · have houtcome := hwoken v hv
      rw [St.outcome, ho] at houtcome
      exact Option.some.inj houtcome
    · exact absurd hv (hnot v)

theorem Inv.clear (h : Inv s) {i : ℕ} (hstep : step s (.clear i) = some t) : Inv t := by
  obtain ⟨k, f, joined, v, hwoken, rfl⟩ := step_clear hstep
  obtain ⟨o, ho, hfin⟩ := h.caller _ (List.mem_of_getElem? hwoken)
  have hret {t : St K V} (ht : t.callers = s.callers.set i ⟨k, f, joined, .returned v⟩)
      {g : ℕ} {w : V} : Returned t g w ↔ Returned s g w ∨ (f = g ∧ Stage.returned v = .returned w) :=
    returned_set hwoken (by rintro w ⟨⟩) ht
  -- the entry of the flight goes, and no other
  have hlookup (k' : K) (g : ℕ) : (if s.flights.lookup k = some f then s.flights.erase k
      else s.flights).lookup k' = some g ↔ s.flights.lookup k' = some g ∧ g ≠ f := by
    split
    · rename_i hentry
      by_cases hk : k' = k
      · subst hk
        rw [AList.lookup_erase, hentry]
        exact ⟨fun hg => (by cases hg), fun ⟨hg, hne⟩ => absurd (Option.some.inj hg).symm hne⟩
      · rw [AList.lookup_erase_ne hk]
        refine ⟨fun hg => ⟨hg, ?_⟩, And.left⟩
        rintro rfl
        obtain ⟨o', ho'⟩ := h.keyed k' g hg
        exact hk (congrArg Flight.key (Option.some.inj (ho'.symm.trans ho)))
    · rename_i hentry
      refine ⟨fun hg => ⟨hg, ?_⟩, And.left⟩
      rintro rfl
      obtain ⟨o', ho'⟩ := h.keyed k' g hg
      obtain rfl : k' = k := congrArg Flight.key (Option.some.inj (ho'.symm.trans ho))
      exact hentry hg
  refine ⟨fun k' g hg => h.keyed k' g ((hlookup k' g).mp hg).1, fun g k' o' hg hno => ?_,
    fun g w k' hw hg => ?_, fun c hc => ?_⟩
  · refine (hlookup k' g).mpr
      ⟨h.kept g k' o' hg fun w hw => hno w ((hret rfl).mpr (Or.inl hw)), ?_⟩
    rintro rfl
    exact hno v ((hret rfl).mpr (Or.inr ⟨rfl, rfl⟩))
  · obtain ⟨hg, hne⟩ := (hlookup k' g).mp hg
    rcases (hret rfl).mp hw with hw | ⟨rfl, -⟩
    · exact h.gone g w k' hw hg
    · exact hne rfl
  · rcases List.mem_or_eq_of_mem_set hc with hc | rfl
    · exact h.caller c hc
    · refine ⟨o, ho, ?_⟩
      rintro w (hw | hw)
      · cases hw
      · obtain rfl := Stage.returned.inj hw
        exact hfin v (Or.inl rfl)

/-- **Every step keeps the entries in order.** -/
theorem Inv.step (h : Inv s) (hstep : step s a = some t) : Inv t := by
  cases a with
  | enter k =>
    obtain rfl := Option.some.inj hstep
    exact h.enter k
  | finish f v => exact h.settle hstep
  | panic f => exact h.settle hstep
  | wake i =>
    obtain ⟨k, f, joined, stage, hleaves⟩ := step_wake hstep
    exact h.leaves hleaves
  | clear i => exact h.clear hstep
  | drop i =>
    obtain ⟨k, f, joined, stage, hleaves⟩ := step_drop hstep
    exact h.leaves hleaves

/-- **Who comes joins a running flight exactly if all others of the key are done with.** -/
theorem Inv.joined_enter (h : Inv s) (k : K) :
    (∀ c ∈ (SingleFlight.enter k s).callers, c.joined = true) ↔
      (∀ c ∈ s.callers, c.joined = true) ∧ DoneWith s (.enter k) := by
  -- a call that is over and not done with has the entry of its key
  have hentry (f : ℕ) (o : Outcome V) (hf : s.spawned[f]? = some ⟨k, o⟩) :
      s.flights.lookup k = some f ∨ ∃ v, Returned s f v := by
    by_cases hret : ∃ v, Returned s f v
    · exact Or.inr hret
    · exact Or.inl (h.kept f k o hf fun v hv => hret ⟨v, hv⟩)
  unfold SingleFlight.enter
  cases hlookup : s.flights.lookup k with
  | none =>
    rw [List.forall_mem_append, List.forall_mem_singleton]
    refine and_congr_right fun _ => iff_of_true rfl fun f o hf _ => (hentry f o hf).resolve_left ?_
    rw [hlookup]
    rintro ⟨⟩
  | some f =>
    obtain ⟨o, ho⟩ := h.keyed k f hlookup
    have houtcome : s.outcome f = some o := by
      rw [St.outcome, ho]
      rfl
    rw [List.forall_mem_append, List.forall_mem_singleton, houtcome, Option.any_some]
    refine and_congr_right fun _ => ⟨fun hrunning g o' hg ho' => ?_, fun hdone => ?_⟩
    · refine (hentry g o' hg).resolve_left fun hg' => ?_
      obtain rfl := Option.some.inj (hlookup.symm.trans hg')
      obtain ⟨-, rfl⟩ := Flight.mk.inj (Option.some.inj (ho.symm.trans hg))
      cases o with
      | running => exact ho' rfl
      | finished v => cases hrunning
      | panicked => cases hrunning
    · cases o with
      | running => rfl
      | finished v =>
        obtain ⟨w, hw⟩ := hdone f _ ho (by rintro ⟨⟩)
        exact absurd hlookup (h.gone f w k hw)
      | panicked =>
        obtain ⟨w, hw⟩ := hdone f _ ho (by rintro ⟨⟩)
        exact absurd hlookup (h.gone f w k hw)

omit [DecidableEq K] in
theorem joined_set {i : ℕ} {c d : Caller K V} (hc : s.callers[i]? = some c)
    (hd : d.joined = c.joined) : (∀ e ∈ s.callers.set i d, e.joined = true) ↔
      ∀ e ∈ s.callers, e.joined = true := by
  constructor
  · intro hall e he
    by_cases hec : e = c
    · subst hec
      rw [← hd]
      exact hall d (List.mem_set (List.getElem?_eq_some_iff.mp hc).1 d)
    · exact hall e (ItemLocks.mem_set_of_ne hc he hec d)
  · intro hall e he
    rcases List.mem_or_eq_of_mem_set he with he | rfl
    · exact hall e he
    · rw [hd]
      exact hall c (List.mem_of_getElem? hc)

/-- **One step**: the callers join running flights if they did before, and if who comes does. -/
theorem Inv.joined_step (h : Inv s) (hstep : SingleFlight.step s a = some t) :
    (∀ c ∈ t.callers, c.joined = true) ↔ (∀ c ∈ s.callers, c.joined = true) ∧ DoneWith s a := by
  cases a with
  | enter k =>
    obtain rfl := Option.some.inj hstep
    exact h.joined_enter k
  | finish f v =>
    obtain ⟨k, hf, rfl⟩ := settle_eq_some hstep
    exact (and_iff_left trivial).symm
  | panic f =>
    obtain ⟨k, hf, rfl⟩ := settle_eq_some hstep
    exact (and_iff_left trivial).symm
  | wake i =>
    obtain ⟨k, f, joined, stage, hwaiting, rfl, -, -⟩ := step_wake hstep
    exact (joined_set (d := ⟨k, f, joined, stage⟩) hwaiting rfl).trans (and_iff_left trivial).symm
  | clear i =>
    obtain ⟨k, f, joined, v, hwoken, rfl⟩ := step_clear hstep
    exact (joined_set (d := ⟨k, f, joined, .returned v⟩) hwoken rfl).trans
      (and_iff_left trivial).symm
  | drop i =>
    obtain ⟨k, f, joined, stage, hwaiting, rfl, -, -⟩ := step_drop hstep
    exact (joined_set (d := ⟨k, f, joined, stage⟩) hwaiting rfl).trans (and_iff_left trivial).symm

/-- **A run.** -/
theorem Inv.joined_exec {as : List (Act K V)} (h : Inv s)
    (hrun : exec SingleFlight.step s as = some t) :
    Inv t ∧ ((∀ c ∈ t.callers, c.joined = true) ↔ (∀ c ∈ s.callers, c.joined = true) ∧
      Along SingleFlight.step DoneWith s as) := by
  induction as generalizing s with
  | nil =>
    obtain rfl : s = t := Option.some.inj hrun
    exact ⟨h, (and_iff_left trivial).symm⟩
  | cons a as ih =>
    rw [exec_cons] at hrun
    obtain ⟨u, hu, hrest⟩ := Option.bind_eq_some_iff.mp hrun
    obtain ⟨ht, hjoined⟩ := ih (h.step hu) hrest
    refine ⟨ht, hjoined.trans ?_⟩
    rw [h.joined_step hu, and_assoc, Along, hu]
    simp

end steps

/-- **Only running work is shared in exactly the runs in which everyone comes when the calls of the
key that are over are done with.** -/
theorem sharesRunning_iff {as : List (Act K V)} {s : St K V}
    (hrun : exec step St.new as = some s) :
    SharesRunning s ↔ Along step DoneWith (St.new : St K V) as := by
  obtain ⟨hinv, hjoined⟩ := inv_new.joined_exec hrun
  have hall : (∀ c ∈ s.callers, c.joined = true) ↔ Along step DoneWith (St.new : St K V) as :=
    hjoined.trans (and_iff_right fun c hc => by cases hc)
  refine ⟨fun h => hall.mp h.joined, fun h => ⟨fun f g k hf hg => ?_, fun f v hret => ?_,
    hall.mpr h⟩⟩
  · -- what runs has given nobody its value, so it has the entry of its key
    have hkept (f : ℕ) (hf : s.spawned[f]? = some ⟨k, .running⟩) : s.flights.lookup k = some f :=
      hinv.kept f k .running hf fun v hv => by
        obtain ⟨k', hfin⟩ := hinv.finished hv
        cases hf.symm.trans hfin
    exact Option.some.inj ((hkept f hf).symm.trans (hkept g hg))
  · obtain ⟨k, hfin⟩ := hinv.finished hret
    rw [St.outcome, hfin]
    rfl

/-- **One call of a key at a time**, whoever comes, is dropped or unwinds: calls of one key that
have given nobody their value are the same, and what a caller is given its call has produced. -/
theorem one_flight_of_runs {s : St K V} (h : Runs step anyStep St.new s) :
    (∀ (f g : ℕ) (k : K) (o o' : Outcome V), s.spawned[f]? = some ⟨k, o⟩ →
      s.spawned[g]? = some ⟨k, o'⟩ → (∀ v, ¬Returned s f v) → (∀ v, ¬Returned s g v) → f = g) ∧
    ∀ f v, Returned s f v → s.outcome f = some (.finished v) := by
  have hinv : Inv s := h.invariant inv_new fun _ _ _ hv _ hstep => hv.step hstep
  refine ⟨fun f g k o o' hf hg hf' hg' => ?_, fun f v hret => ?_⟩
  · exact Option.some.inj ((hinv.kept f k o hf hf').symm.trans (hinv.kept g k o' hg hg'))
  · obtain ⟨k, hfin⟩ := hinv.finished hret
    rw [St.outcome, hfin]
    rfl

/-- Two callers share a call, one of them is dropped, and a third comes when the other has
returned. -/
def tidyRun : List (Act String ℕ) :=
  [.enter "movies", .enter "movies", .finish 0 5, .drop 0, .wake 1, .clear 1, .enter "movies"]

theorem sharesRunning_tidyRun : ∃ s, exec step (St.new : St String ℕ) tidyRun = some s ∧
    (SharesRunning s ↔ Along step DoneWith (St.new : St String ℕ) tidyRun) :=
  ⟨_, rfl, sharesRunning_iff rfl⟩

theorem one_flight_tidyRun : ∃ s : St String ℕ, Runs step anyStep St.new s ∧
    Returned s 0 5 ∧ s.outcome 0 = some (.finished 5) := by
  have hexec : ∃ s, exec step (St.new : St String ℕ) tidyRun = some s ∧ Returned s 0 5 :=
    ⟨_, rfl, ⟨"movies", 0, true, .returned 5⟩, by decide, rfl, rfl⟩
  obtain ⟨s, hrun, hret⟩ := exists_runs_of_exec hexec
  exact ⟨s, hrun, hret, (one_flight_of_runs hrun).2 0 5 hret⟩

/-- **Everyone who awaited a call is dropped, and who comes next is given its value.** -/
theorem not_sharesRunning_dropped : ¬ ∀ (as : List (Act String ℕ)) (s : St String ℕ),
    exec step St.new as = some s → SharesRunning s := by
  intro h
  have hshares := h [.enter "movies", .finish 0 5, .drop 0, .enter "movies", .wake 1, .clear 1] _ rfl
  exact absurd (hshares.joined ⟨"movies", 0, false, .returned 5⟩ (by decide)) (by decide)

end EmeraldExchange.Gateway.SingleFlight
