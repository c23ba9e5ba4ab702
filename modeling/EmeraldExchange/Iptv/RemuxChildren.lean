import EmeraldExchange.Iptv.Remux
import EmeraldExchange.Lib.Runs

/-!
# The children of the remux registry over whole runs

`crates/iptv/src/remux.rs` again, now with the processes themselves: a world is the registry and
the ffmpeg children that have not exited. A child exits at some time of its own, and only then does
its supervisor take the lock and update the tables, so that an exit may come after the session was
stopped, or started anew under another id.

`Kept` is what every step keeps: each child that holds a provider
connection is in one of the tables, and what is in a table is such a child. It rests on session ids
being new. An id is made of the stream, the viewer and the wall clock in milliseconds, so a start
may come upon an id that is registered; the session of that id is then overwritten, and its child is
in no table until it exits (`not_accounted`).
-/

namespace EmeraldExchange.Iptv.Remux

/-! ### The world -/

inductive Origin
  | session (sessionId : String)
  | capture
  /-- A capture of a session's own segments, which holds no provider connection. -/
  | localCapture
  deriving DecidableEq

/-- **The registry and the children** that have not exited. -/
structure World where
  reg : Registry
  children : Table ℕ Origin

/-- A registry that was just made, without children. -/
def World.new (cap : ℕ) : World := ⟨.new cap, ∅⟩

def sessionIdOf (streamId sub : String) (ms : ℤ) : String :=
  s!"remux:{streamId}:{safeIdPart sub}:{ms}"

/-- **What happens**: a call of the registry, or the exit of a child. -/
inductive Event
  | start (now live : ℕ) (streamId sub : String) (ms : ℤ) (launch : Launch)
  | stop (sessionId : String)
  | sweepIdle (now : ℕ)
  | drain
  | preempt
  | yieldAux (live : ℕ)
  | captureAux (live : ℕ) (spawned : Bool)
  | captureLocal (spawned : Bool)
  | heartbeat (now : ℕ) (sessionId : String)
  /-- `relaunch` is set where the watchdogs killed a child that had proven itself. -/
  | exit (child : ℕ) (relaunch spawned : Bool)
  deriving DecidableEq

def Registry.Launches (r : Registry) (live : ℕ) (launch : Launch) : Prop :=
  ¬ (r.cap > 0 ∧ r.count live ≥ r.cap) ∧ launch = .child

instance (r : Registry) (live : ℕ) (launch : Launch) : Decidable (r.Launches live launch) :=
  inferInstanceAs (Decidable (_ ∧ _))

/-- `drain` stops every session. -/
def Registry.drain (r : Registry) : Registry := r.sessions.keys.foldl Registry.stop r

namespace World

variable (w : World)

/-- The world after a call: a child that was spawned is the one whose id was given out. -/
def spawn (r : Registry) (o : Origin) : World :=
  ⟨r, if w.reg.ids < r.ids then w.children.insert w.reg.ids o else w.children⟩

/-- **One step.** Only a child can exit. -/
def step : Event → Option World
  | .start now live streamId sub ms launch =>
    some (w.spawn (w.reg.start now live streamId sub ms launch).2
      (.session (sessionIdOf streamId sub ms)))
  | .stop sessionId => some ⟨w.reg.stop sessionId, w.children⟩
  | .sweepIdle now => some ⟨w.reg.sweepIdle now, w.children⟩
  | .drain => some ⟨w.reg.drain, w.children⟩
  | .preempt => some ⟨w.reg.preempt.2, w.children⟩
  | .yieldAux live => some ⟨w.reg.yieldAux live, w.children⟩
  | .captureAux live spawned => some (w.spawn (w.reg.captureAux live spawned) .capture)
  | .captureLocal spawned =>
    some (w.spawn (if spawned then { w.reg with ids := w.reg.ids + 1 } else w.reg) .localCapture)
  | .heartbeat now sessionId => some ⟨w.reg.heartbeat now sessionId, w.children⟩
  | .exit child relaunch spawned =>
    (w.children.lookup child).map fun
      | .session sessionId =>
        let w' := w.spawn (w.reg.childExit sessionId child relaunch spawned) (.session sessionId)
        ⟨w'.reg, w'.children.erase child⟩
      | _ => ⟨w.reg.captureExit child, w.children.erase child⟩

end World

/-! ### What every step keeps -/

inductive Place
  | session (sessionId : String)
  | draining
  | aux

def Registry.Holds (r : Registry) (child : ℕ) : Place → Prop
  | .session sessionId => ∃ s, r.sessions.lookup sessionId = some s ∧ s.child = child
  | .draining => child ∈ r.draining
  | .aux => child ∈ r.aux

/-- **The tables and the children agree.** -/
structure Kept (r : Registry) (children : Table ℕ Origin) : Prop where
  fresh : ∀ c o, children.lookup c = some o → c < r.ids
  session : ∀ sid s, r.sessions.lookup sid = some s → children.lookup s.child = some (.session sid)
  draining : ∀ c ∈ r.draining, ∃ o, children.lookup c = some o ∧ o ≠ .localCapture
  aux : ∀ c ∈ r.aux, children.lookup c = some .capture
  recorded : ∀ c o, children.lookup c = some o → o ≠ .localCapture → ∃ p, r.Holds c p
  session_draining : ∀ sid s, r.sessions.lookup sid = some s → s.child ∉ r.draining
  aux_draining : ∀ c ∈ r.aux, c ∉ r.draining

/-- **Every child that holds a provider connection is in exactly one table**, and what is in a
table has not exited. -/
structure Accounted (w : World) : Prop where
  recorded : ∀ c o, w.children.lookup c = some o → o ≠ .localCapture → ∃! p, w.reg.Holds c p
  living : ∀ c p, w.reg.Holds c p → ∃ o, w.children.lookup c = some o ∧ o ≠ .localCapture

section kept

variable {r : Registry} {children : Table ℕ Origin}

theorem Kept.unique (h : Kept r children) {c : ℕ} {p q : Place} (hp : r.Holds c p)
    (hq : r.Holds c q) : p = q := by
  have hsession : ∀ {sid : String}, r.Holds c (.session sid) →
      children.lookup c = some (.session sid) ∧ c ∉ r.draining := by
    rintro sid ⟨s, hs, rfl⟩
    exact ⟨h.session sid s hs, h.session_draining sid s hs⟩
  cases p with
  | session sid =>
    obtain ⟨hchild, hnot⟩ := hsession hp
    cases q with
    | session sid' =>
      obtain ⟨hchild', -⟩ := hsession hq
      rw [hchild] at hchild'
      obtain ⟨rfl⟩ := Option.some.inj hchild'
      rfl
    | draining => exact absurd hq hnot
    | aux => exact absurd (hchild.symm.trans (h.aux c hq)) (by simp)
  | draining =>
    cases q with
    | session sid => exact absurd hp (hsession hq).2
    | draining => rfl
    | aux => exact absurd hp (h.aux_draining c hq)
  | aux =>
    cases q with
    | session sid => exact absurd ((hsession hq).1.symm.trans (h.aux c hp)) (by simp)
    | draining => exact absurd hq (h.aux_draining c hp)
    | aux => rfl

theorem Kept.accounted {w : World} (h : Kept w.reg w.children) : Accounted w where
  recorded c o ho hlocal := by
    obtain ⟨p, hp⟩ := h.recorded c o ho hlocal
    exact ⟨p, hp, fun q hq => h.unique hq hp⟩
  living c p hp := by
    cases p with
    | session sid =>
      obtain ⟨s, hs, rfl⟩ := hp
      exact ⟨_, h.session sid s hs, by simp⟩
    | draining => exact h.draining c hp
    | aux => exact ⟨_, h.aux c hp, by simp⟩

theorem kept_new (cap : ℕ) : Kept (.new cap) ∅ where
  fresh c o h := by simp at h
  session sid s h := by simp [Registry.new] at h
  draining c h := by simp [Registry.new] at h
  aux c h := by simp [Registry.new] at h
  recorded c o h := by simp at h
  session_draining sid s h := by simp [Registry.new] at h
  aux_draining c h := by simp [Registry.new] at h

theorem Registry.ids_stop (sid : String) : (r.stop sid).ids = r.ids := by
  rw [Registry.stop]
  split <;> rfl

/-- **A session that is stopped** drains. -/
theorem Kept.stop (h : Kept r children) (sid : String) : Kept (r.stop sid) children := by
  rw [Registry.stop]
  split
  next s hs =>
    have hchild := h.session sid s hs
    have hother : ∀ {sid' : String} {s' : Session},
        (r.sessions.erase sid).lookup sid' = some s' → sid' ≠ sid ∧
          r.sessions.lookup sid' = some s' := by
      intro sid' s' hs'
      by_cases heq : sid' = sid
      · rw [heq, AList.lookup_erase] at hs'
        cases hs'
      · exact ⟨heq, by rwa [AList.lookup_erase_ne heq] at hs'⟩
    refine ⟨h.fresh, fun sid' s' hs' => h.session sid' s' (hother hs').2, ?_, h.aux, ?_, ?_, ?_⟩
    · intro c hc
      rcases Finset.mem_insert.mp hc with rfl | hc
      · exact ⟨_, hchild, by simp⟩
      · exact h.draining c hc
    · intro c o ho hlocal
      obtain ⟨p, hp⟩ := h.recorded c o ho hlocal
      cases p with
      | session sid' =>
        obtain ⟨s', hs', rfl⟩ := hp
        by_cases heq : sid' = sid
        · -- it is the session that is stopped
          obtain rfl := heq
          obtain rfl := Option.some.inj (hs.symm.trans hs')
          exact ⟨.draining, Finset.mem_insert_self _ _⟩
        · exact ⟨.session sid', s', by rwa [AList.lookup_erase_ne heq], rfl⟩
      | draining => exact ⟨.draining, Finset.mem_insert_of_mem hp⟩
      | aux => exact ⟨.aux, hp⟩
    · intro sid' s' hs'
      obtain ⟨hne, hs'⟩ := hother hs'
      rw [Finset.mem_insert, not_or]
      refine ⟨fun heq => hne ?_, h.session_draining sid' s' hs'⟩
      have hsame := h.session sid' s' hs'
      rw [heq, hchild] at hsame
      obtain ⟨rfl⟩ := Option.some.inj hsame
      rfl
    · intro c hc
      rw [Finset.mem_insert, not_or]
      refine ⟨?_, h.aux_draining c hc⟩
      rintro rfl
      exact absurd (hchild.symm.trans (h.aux _ hc)) (by simp)
  next => exact h

theorem Kept.foldl_stop (h : Kept r children) (sids : List String) :
    Kept (sids.foldl Registry.stop r) children := by
  induction sids generalizing r with
  | nil => exact h
  | cons sid sids ih => exact ih (h.stop sid)

/-- **Captures that are killed** drain. -/
theorem Kept.preempt (h : Kept r children) : Kept r.preempt.2 children := by
  refine ⟨h.fresh, h.session, ?_, fun c hc => by simp [Registry.preempt] at hc, ?_, ?_,
    fun c hc => by simp [Registry.preempt] at hc⟩
  · intro c hc
    rcases Finset.mem_union.mp hc with hc | hc
    · exact h.draining c hc
    · exact ⟨_, h.aux c hc, by simp⟩
  · intro c o ho hlocal
    obtain ⟨p, hp⟩ := h.recorded c o ho hlocal
    cases p with
    | session sid => exact ⟨.session sid, hp⟩
    | draining => exact ⟨.draining, Finset.mem_union_left _ hp⟩
    | aux => exact ⟨.draining, Finset.mem_union_right _ hp⟩
  · intro sid s hs hmem
    rcases Finset.mem_union.mp hmem with hmem | hmem
    · exact h.session_draining sid s hs hmem
    · exact absurd ((h.session sid s hs).symm.trans (h.aux _ hmem)) (by simp)

theorem Kept.yieldAux (h : Kept r children) (live : ℕ) : Kept (r.yieldAux live) children := by
  rw [Registry.yieldAux]
  split
  · exact h
  · exact h.preempt

theorem Kept.reclaim (h : Kept r children) (now : ℕ) : Kept (r.reclaim now) children := by
  rw [Registry.reclaim]
  split
  · exact h.preempt
  split
  · split
    · split
      · exact h.stop _
      · exact h
    · exact h
  · exact h

theorem Kept.congr (h : Kept r children) {children' : Table ℕ Origin}
    (heq : ∀ c, children'.lookup c = children.lookup c) : Kept r children' := by
  obtain ⟨h₁, h₂, h₃, h₄, h₅, h₆, h₇⟩ := h
  constructor <;> simpa only [heq]

theorem Kept.lookup_insert (h : Kept r children) (o : Origin) {c : ℕ} {o' : Origin}
    (hc : children.lookup c = some o') : (children.insert r.ids o).lookup c = some o' := by
  rw [AList.lookup_insert_ne (h.fresh c o' hc).ne]
  exact hc

theorem Kept.cases_insert (h : Kept r children) {o : Origin} {c : ℕ} {o' : Origin}
    (hc : (children.insert r.ids o).lookup c = some o') :
    c = r.ids ∧ o' = o ∨ c < r.ids ∧ children.lookup c = some o' := by
  rcases Table.lookup_insert_cases hc with ⟨hid, rfl⟩ | ⟨-, hc⟩
  · exact .inl ⟨hid, rfl⟩
  · exact .inr ⟨h.fresh c o' hc, hc⟩

theorem Kept.fresh_insert (h : Kept r children) {o : Origin} (c : ℕ) (o' : Origin)
    (hc : (children.insert r.ids o).lookup c = some o') : c < r.ids + 1 := by
  rcases h.cases_insert hc with ⟨rfl, -⟩ | ⟨hlt, -⟩
  · exact Nat.lt_succ_self _
  · exact Nat.lt_succ_of_lt hlt

theorem Kept.draining_insert (h : Kept r children) (o : Origin) : ∀ c ∈ r.draining,
    ∃ o', (children.insert r.ids o).lookup c = some o' ∧ o' ≠ .localCapture := by
  intro c hc
  obtain ⟨o', ho', hlocal⟩ := h.draining c hc
  exact ⟨o', h.lookup_insert _ ho', hlocal⟩

theorem Kept.ids_notMem_draining (h : Kept r children) : r.ids ∉ r.draining := by
  intro hmem
  obtain ⟨o, ho, -⟩ := h.draining _ hmem
  exact lt_irrefl _ (h.fresh _ o ho)

/-- **A session whose child is new**, where there was none of its id. -/
theorem Kept.launch (h : Kept r children) (sid : String) (s : Session)
    (sessions : Table String Session) (hnew : r.sessions.lookup sid = none)
    (hchild : s.child = r.ids) (hself : sessions.lookup sid = some s)
    (hother : ∀ sid' ≠ sid, sessions.lookup sid' = r.sessions.lookup sid') :
    Kept { r with sessions := sessions, ids := r.ids + 1 }
      (children.insert r.ids (.session sid)) := by
  have hold : ∀ {sid' : String} {s' : Session}, sessions.lookup sid' = some s' →
      sid' = sid ∧ s' = s ∨ sid' ≠ sid ∧ r.sessions.lookup sid' = some s' := by
    intro sid' s' hs'
    by_cases heq : sid' = sid
    · rw [heq, hself] at hs'
      exact .inl ⟨heq, (Option.some.inj hs').symm⟩
    · exact .inr ⟨heq, by rwa [hother _ heq] at hs'⟩
  refine ⟨h.fresh_insert, ?_, h.draining_insert _, fun c hc => h.lookup_insert _ (h.aux c hc), ?_,
    ?_, h.aux_draining⟩
  · intro sid' s' hs'
    rcases hold hs' with ⟨rfl, rfl⟩ | ⟨-, hs'⟩
    · rw [hchild, AList.lookup_insert]
    · exact h.lookup_insert _ (h.session sid' s' hs')
  · intro c o hc hlocal
    rcases h.cases_insert hc with ⟨rfl, -⟩ | ⟨-, hc⟩
    · exact ⟨.session sid, s, hself, hchild⟩
    obtain ⟨p, hp⟩ := h.recorded c o hc hlocal
    cases p with
    | session sid' =>
      obtain ⟨s', hs', rfl⟩ := hp
      have hne : sid' ≠ sid := by
        rintro rfl
        rw [hnew] at hs'
        cases hs'
      exact ⟨.session sid', s', by rwa [hother sid' hne], rfl⟩
    | draining => exact ⟨.draining, hp⟩
    | aux => exact ⟨.aux, hp⟩
  · intro sid' s' hs' hmem
    rcases hold hs' with ⟨rfl, rfl⟩ | ⟨-, hs'⟩
    · exact h.ids_notMem_draining (by rwa [← hchild])
    · exact h.session_draining sid' s' hs' hmem

/-- **A capture that is new.** -/
theorem Kept.capture (h : Kept r children) :
    Kept { r with aux := insert r.ids r.aux, ids := r.ids + 1 }
      (children.insert r.ids .capture) := by
  refine ⟨h.fresh_insert, fun sid s hs => h.lookup_insert _ (h.session sid s hs),
    h.draining_insert _, ?_, ?_, h.session_draining, ?_⟩
  · intro c hc
    rcases Finset.mem_insert.mp hc with rfl | hc
    · exact AList.lookup_insert _
    · exact h.lookup_insert _ (h.aux c hc)
  · intro c o hc hlocal
    rcases h.cases_insert hc with ⟨rfl, -⟩ | ⟨-, hc⟩
    · exact ⟨.aux, Finset.mem_insert_self _ _⟩
    obtain ⟨p, hp⟩ := h.recorded c o hc hlocal
    cases p with
    | session sid => exact ⟨.session sid, hp⟩
    | draining => exact ⟨.draining, hp⟩
    | aux => exact ⟨.aux, Finset.mem_insert_of_mem hp⟩
  · intro c hc hmem
    rcases Finset.mem_insert.mp hc with rfl | hc
    · exact h.ids_notMem_draining hmem
    · exact h.aux_draining c hc hmem

theorem Kept.captureLocal (h : Kept r children) :
    Kept { r with ids := r.ids + 1 } (children.insert r.ids .localCapture) := by
  refine ⟨h.fresh_insert, fun sid s hs => h.lookup_insert _ (h.session sid s hs),
    h.draining_insert _, fun c hc => h.lookup_insert _ (h.aux c hc), ?_, h.session_draining,
    h.aux_draining⟩
  · intro c o hc hlocal
    rcases h.cases_insert hc with ⟨-, rfl⟩ | ⟨-, hc⟩
    · exact absurd rfl hlocal
    · exact h.recorded c o hc hlocal

/-- **A child that has exited** is in no table. -/
theorem Kept.gone (h : Kept r children) (c : ℕ) (sessions : Table String Session)
    (hold : ∀ sid s, sessions.lookup sid = some s →
      r.sessions.lookup sid = some s ∧ s.child ≠ c)
    (hkeep : ∀ sid s, r.sessions.lookup sid = some s → s.child ≠ c →
      sessions.lookup sid = some s) :
    Kept { r with sessions := sessions, draining := r.draining.erase c, aux := r.aux.erase c }
      (children.erase c) := by
  have herase : ∀ {c' : ℕ} {o : Origin},
      (children.erase c).lookup c' = some o ↔ c' ≠ c ∧ children.lookup c' = some o := by
    intro c' o
    by_cases heq : c' = c
    · rw [heq, AList.lookup_erase]
      simp
    · rw [AList.lookup_erase_ne heq]
      exact ⟨And.intro heq, And.right⟩
  refine ⟨fun c' o hc' => h.fresh c' o (herase.mp hc').2, ?_, ?_, ?_, ?_, ?_, ?_⟩
  · intro sid s hs
    obtain ⟨hs, hne⟩ := hold sid s hs
    exact herase.mpr ⟨hne, h.session sid s hs⟩
  · intro c' hc'
    obtain ⟨hne, hc'⟩ := Finset.mem_erase.mp hc'
    obtain ⟨o, ho, hlocal⟩ := h.draining c' hc'
    exact ⟨o, herase.mpr ⟨hne, ho⟩, hlocal⟩
  · intro c' hc'
    obtain ⟨hne, hc'⟩ := Finset.mem_erase.mp hc'
    exact herase.mpr ⟨hne, h.aux c' hc'⟩
  · intro c' o hc' hlocal
    obtain ⟨hne, hc'⟩ := herase.mp hc'
    obtain ⟨p, hp⟩ := h.recorded c' o hc' hlocal
    cases p with
    | session sid =>
      obtain ⟨s, hs, rfl⟩ := hp
      exact ⟨.session sid, s, hkeep sid s hs hne, rfl⟩
    | draining => exact ⟨.draining, Finset.mem_erase.mpr ⟨hne, hp⟩⟩
    | aux => exact ⟨.aux, Finset.mem_erase.mpr ⟨hne, hp⟩⟩
  · intro sid s hs hmem
    exact h.session_draining sid s (hold sid s hs).1 (Finset.mem_of_mem_erase hmem)
  · intro c' hc' hmem
    exact h.aux_draining c' (Finset.mem_of_mem_erase hc') (Finset.mem_of_mem_erase hmem)

theorem Kept.heartbeat (h : Kept r children) (now : ℕ) (sid : String) :
    Kept (r.heartbeat now sid) children := by
  have hlookup : ∀ {sid' : String} {s' : Session},
      (r.heartbeat now sid).sessions.lookup sid' = some s' →
        ∃ s, r.sessions.lookup sid' = some s ∧ s.child = s'.child := by
    intro sid' s' hs'
    rw [Registry.heartbeat, Table.lookup_modify] at hs'
    obtain ⟨s, hs, rfl⟩ := Option.map_eq_some_iff.mp hs'
    refine ⟨s, hs, ?_⟩
    split <;> rfl
  refine ⟨h.fresh, ?_, h.draining, h.aux, ?_, ?_, h.aux_draining⟩
  · intro sid' s' hs'
    obtain ⟨s, hs, hchild⟩ := hlookup hs'
    rw [← hchild]
    exact h.session sid' s hs
  · intro c o hc hlocal
    obtain ⟨p, hp⟩ := h.recorded c o hc hlocal
    cases p with
    | session sid' =>
      obtain ⟨s, hs, rfl⟩ := hp
      refine ⟨.session sid', _, by rw [Registry.heartbeat, Table.lookup_modify, hs]; rfl, ?_⟩
      split <;> rfl
    | draining => exact ⟨.draining, hp⟩
    | aux => exact ⟨.aux, hp⟩
  · intro sid' s' hs'
    obtain ⟨s, hs, hchild⟩ := hlookup hs'
    rw [← hchild]
    exact h.session_draining sid' s hs

/-- **A start** whose session is new, if it comes to launch ffmpeg. -/
theorem Kept.start (h : Kept r children) (now live : ℕ) (streamId sub : String) (ms : ℤ)
    (launch : Launch)
    (hnew : r.Launches live launch → r.sessions.lookup (sessionIdOf streamId sub ms) = none) :
    let w : World := (World.mk r children).spawn (r.start now live streamId sub ms launch).2
      (.session (sessionIdOf streamId sub ms))
    Kept w.reg w.children := by
  dsimp only
  by_cases hcap : r.cap > 0 ∧ r.count live ≥ r.cap
  · -- at the cap nothing is launched
    have hids : (r.reclaim now).ids = r.ids := by
      rw [Registry.reclaim]
      split
      · rfl
      repeat' split
      all_goals first | rfl | exact Registry.ids_stop _
    rw [Registry.start, if_pos hcap]
    simp only [World.spawn, hids, lt_irrefl, if_false]
    exact h.reclaim now
  rw [Registry.start, if_neg hcap]
  cases launch with
  | child =>
    simp only [World.spawn, Nat.lt_succ_self, if_true]
    exact h.launch _ _ _ (hnew ⟨hcap, rfl⟩) rfl (AList.lookup_insert _)
      fun sid' hne => AList.lookup_insert_ne hne
  | noProxy | noDir _ | noChild =>
    simp only [World.spawn, lt_irrefl, if_false]
    exact h

/-- **The exit of a session's child**: the session is relaunched in place, or it ends, unless it
was stopped before. -/
theorem Kept.childExit (h : Kept r children) {sid : String} {c : ℕ}
    (hc : children.lookup c = some (.session sid)) (relaunch spawned : Bool) :
    let w : World := (World.mk r children).spawn (r.childExit sid c relaunch spawned)
      (.session sid)
    Kept w.reg (w.children.erase c) := by
  dsimp only
  have haux : r.aux.erase c = r.aux := Finset.erase_eq_of_notMem fun hmem =>
    absurd (hc.symm.trans (h.aux c hmem)) (by simp)
  -- the sessions of the child are those of its id
  have hself : ∀ sid' s, r.sessions.lookup sid' = some s → s.child = c → sid' = sid := by
    rintro sid' s hs rfl
    obtain ⟨rfl⟩ := Option.some.inj ((h.session sid' s hs).symm.trans hc)
    rfl
  by_cases hlive : (r.sessions.lookup sid).any (·.child = c) = true
  · obtain ⟨s, hs, hchild⟩ := Option.any_eq_true _ _ |>.mp hlive
    have hchild : s.child = c := by simpa using hchild
    have hgone := h.gone c (r.sessions.erase sid)
      (fun sid' s' hs' => by
        by_cases heq : sid' = sid
        · rw [heq, AList.lookup_erase] at hs'
          cases hs'
        · rw [AList.lookup_erase_ne heq] at hs'
          exact ⟨hs', fun hs'c => heq (hself sid' s' hs' hs'c)⟩)
      (fun sid' s' hs' hne => by
        by_cases heq : sid' = sid
        · rw [heq, hs] at hs'
          exact absurd ((Option.some.inj hs') ▸ hchild) hne
        · rwa [AList.lookup_erase_ne heq])
    rw [haux] at hgone
    rw [Registry.childExit]
    simp only [hlive, if_true]
    by_cases hagain : (relaunch && spawned) = true
    · -- the new child takes the place of the one that is gone
      have hlaunch := hgone.launch sid { s with child := r.ids }
        (r.sessions.modify sid fun s => { s with child := r.ids })
        (AList.lookup_erase _ _) rfl
        (by rw [Table.lookup_modify, hs]; simp)
        (fun sid' hne => by
          rw [Table.lookup_modify, AList.lookup_erase_ne hne]
          simp [hne])
      rw [if_pos hagain]
      simp only [World.spawn, Nat.lt_succ_self, if_true]
      refine hlaunch.congr fun c' => ?_
      have hfresh : r.ids ≠ c := (h.fresh c _ hc).ne'
      by_cases heq : c' = c
      · rw [heq, AList.lookup_erase, AList.lookup_insert_ne hfresh.symm, AList.lookup_erase]
      · rw [AList.lookup_erase_ne heq]
        by_cases heq' : c' = r.ids
        · rw [heq', AList.lookup_insert, AList.lookup_insert]
        · rw [AList.lookup_insert_ne heq', AList.lookup_insert_ne heq', AList.lookup_erase_ne heq]
    · rw [if_neg hagain]
      simp only [World.spawn, lt_irrefl, if_false]
      exact hgone
  · -- the session was stopped, or is another's by now
    have hnone : ∀ sid' s, r.sessions.lookup sid' = some s → s.child ≠ c := by
      rintro sid' s hs rfl
      obtain rfl := hself sid' s hs rfl
      exact hlive (by simp [hs])
    have hgone := h.gone c r.sessions
      (fun sid' s hs => ⟨hs, hnone sid' s hs⟩) (fun _ _ hs _ => hs)
    rw [haux] at hgone
    rw [Registry.childExit]
    simp only [hlive, Bool.false_eq_true, if_false, World.spawn, lt_irrefl]
    exact hgone

theorem Kept.captureExit (h : Kept r children) {c : ℕ} {o : Origin}
    (hc : children.lookup c = some o) (ho : ∀ sid, o ≠ .session sid) :
    Kept (r.captureExit c) (children.erase c) := by
  refine h.gone c r.sessions (fun sid s hs => ⟨hs, ?_⟩) (fun _ _ hs _ => hs)
  rintro rfl
  exact ho sid (Option.some.inj (hc.symm.trans (h.session sid s hs)))

end kept

/-! ### Whole runs -/

/-- **No start comes upon its own id**: what is launched has an id that is not registered. -/
def NewId (w : World) : Event → Prop
  | .start _ live streamId sub ms launch => w.reg.Launches live launch →
      w.reg.sessions.lookup (sessionIdOf streamId sub ms) = none
  | _ => True

instance (w : World) (e : Event) : Decidable (NewId w e) := by
  cases e <;> unfold NewId <;> infer_instance

/-- **The step lemma.** -/
theorem Kept.step {w w' : World} {e : Event} (h : Kept w.reg w.children) (hnew : NewId w e)
    (hstep : w.step e = some w') : Kept w'.reg w'.children := by
  cases e with
  | start now live streamId sub ms launch =>
    obtain rfl := Option.some.inj hstep
    exact h.start now live streamId sub ms launch hnew
  | stop sid =>
    obtain rfl := Option.some.inj hstep
    exact h.stop sid
  | sweepIdle now =>
    obtain rfl := Option.some.inj hstep
    exact h.foldl_stop _
  | drain =>
    obtain rfl := Option.some.inj hstep
    exact h.foldl_stop _
  | preempt =>
    obtain rfl := Option.some.inj hstep
    exact h.preempt
  | yieldAux live =>
    obtain rfl := Option.some.inj hstep
    exact h.yieldAux live
  | captureAux live spawned =>
    obtain rfl := Option.some.inj hstep
    rw [Registry.captureAux]
    split
    · simpa only [World.spawn, lt_irrefl, if_false] using h
    split
    · simpa only [World.spawn, Nat.lt_succ_self, if_true] using h.capture
    · simpa only [World.spawn, lt_irrefl, if_false] using h
  | captureLocal spawned =>
    obtain rfl := Option.some.inj hstep
    split
    · simpa only [World.spawn, Nat.lt_succ_self, if_true] using h.captureLocal
    · simpa only [World.spawn, lt_irrefl, if_false] using h
  | heartbeat now sid =>
    obtain rfl := Option.some.inj hstep
    exact h.heartbeat now sid
  | exit c relaunch spawned =>
    obtain ⟨o, ho, rfl⟩ := Option.map_eq_some_iff.mp hstep
    cases o with
    | session sid => exact h.childExit ho relaunch spawned
    | capture | localCapture => exact h.captureExit ho (by simp)

theorem Registry.mem_draining_stop {r : Registry} {c : ℕ} (hc : c ∈ r.draining) (sid : String) :
    c ∈ (r.stop sid).draining := by
  rw [Registry.stop]
  split
  · exact Finset.mem_insert_of_mem hc
  · exact hc

theorem Registry.mem_draining_foldl_stop {r : Registry} {c : ℕ} (hc : c ∈ r.draining)
    (sids : List String) : c ∈ (sids.foldl Registry.stop r).draining := by
  induction sids generalizing r with
  | nil => exact hc
  | cons sid sids ih => exact ih (mem_draining_stop hc sid)

theorem Registry.mem_draining_preempt {r : Registry} {c : ℕ} (hc : c ∈ r.draining) :
    c ∈ r.preempt.2.draining :=
  Finset.mem_union_left _ hc

theorem Registry.draining_childExit (r : Registry) (sid : String) (c : ℕ)
    (relaunch spawned : Bool) :
    (r.childExit sid c relaunch spawned).draining = r.draining.erase c := by
  unfold Registry.childExit
  dsimp only
  repeat' split
  all_goals rfl

/-- **A child that drains leaves the table exactly when it exits.** -/
theorem World.notMem_draining_iff {w w' : World} {e : Event} (hstep : w.step e = some w') {c : ℕ}
    (hc : c ∈ w.reg.draining) :
    c ∉ w'.reg.draining ↔ ∃ relaunch spawned, e = .exit c relaunch spawned := by
  have hstays : c ∈ w'.reg.draining → (∀ relaunch spawned, e ≠ .exit c relaunch spawned) →
      (c ∉ w'.reg.draining ↔ ∃ relaunch spawned, e = .exit c relaunch spawned) := by
    rintro hmem hne
    refine ⟨fun h => absurd hmem h, ?_⟩
    rintro ⟨relaunch, spawned, rfl⟩
    exact absurd rfl (hne relaunch spawned)
  cases e with
  | start now live streamId sub ms launch =>
    obtain rfl := Option.some.inj hstep
    refine hstays ?_ (by simp)
    simp only [World.spawn, Registry.start]
    split
    · rw [Registry.reclaim]
      split
      · exact Registry.mem_draining_preempt hc
      repeat' split
      all_goals first | exact hc | exact Registry.mem_draining_stop hc _
    · cases launch <;> exact hc
  | stop sid =>
    obtain rfl := Option.some.inj hstep
    exact hstays (Registry.mem_draining_stop hc sid) (by simp)
  | sweepIdle now =>
    obtain rfl := Option.some.inj hstep
    exact hstays (Registry.mem_draining_foldl_stop hc _) (by simp)
  | drain =>
    obtain rfl := Option.some.inj hstep
    exact hstays (Registry.mem_draining_foldl_stop hc _) (by simp)
  | preempt =>
    obtain rfl := Option.some.inj hstep
    exact hstays (Registry.mem_draining_preempt hc) (by simp)
  | yieldAux live =>
    obtain rfl := Option.some.inj hstep
    refine hstays ?_ (by simp)
    simp only [Registry.yieldAux]
    split
    · exact hc
    · exact Registry.mem_draining_preempt hc
  | captureAux live spawned =>
    obtain rfl := Option.some.inj hstep
    refine hstays ?_ (by simp)
    simp only [World.spawn, Registry.captureAux]
    repeat' split
    all_goals exact hc
  | captureLocal spawned =>
    obtain rfl := Option.some.inj hstep
    refine hstays ?_ (by simp)
    simp only [World.spawn]
    split <;> exact hc
  | heartbeat now sid =>
    obtain rfl := Option.some.inj hstep
    exact hstays hc (by simp)
  | exit c' relaunch spawned =>
    obtain ⟨o, -, rfl⟩ := Option.map_eq_some_iff.mp hstep
    have hdraining : ∀ w' : World, w'.reg.draining = w.reg.draining.erase c' →
        (c ∉ w'.reg.draining ↔ ∃ relaunch' spawned',
          Event.exit c' relaunch spawned = .exit c relaunch' spawned') := by
      intro w' hw'
      rw [hw', Finset.mem_erase]
      simp [hc, eq_comm]
    cases o with
    | session sid => exact hdraining _ (Registry.draining_childExit ..)
    | capture | localCapture => exact hdraining _ rfl

/-- **The bookkeeping of the children.** In every run in which no start comes upon its own id, each
child that holds a provider connection is in exactly one table, no table has a child that exited,
and a child that drains leaves its table exactly when it exits. -/
theorem accounted_of_runs {cap : ℕ} {w : World} (h : Runs World.step NewId (.new cap) w) :
    Accounted w ∧ ∀ e w', w.step e = some w' → ∀ c ∈ w.reg.draining,
      (c ∉ w'.reg.draining ↔ ∃ relaunch spawned, e = .exit c relaunch spawned) := by
  have hkept : Kept w.reg w.children :=
    h.invariant (P := fun w => Kept w.reg w.children) (kept_new cap)
      fun _ _ _ hv hguard hstep => hv.step hguard hstep
  exact ⟨hkept.accounted, fun _ _ hstep _ hc => World.notMem_draining_iff hstep hc⟩

/-- A session is started beside a feed check's capture, which is preempted and exits. -/
def preemptRun : List Event :=
  [.start 0 0 "1" "plex:7" 1000 .child, .captureAux 0 true, .preempt, .exit 1 false false]

/-- The session's child is the only one left. -/
theorem accounted_of_runs_preempt : ∃ w, Runs World.step NewId (.new 3) w ∧
    w.children.keys = [0] ∧ Accounted w := by
  have h : ∃ w, exec (guarded World.step NewId) (.new 3) preemptRun = some w ∧
      w.children.keys = [0] := ⟨_, rfl, rfl⟩
  obtain ⟨w, hw, hkeys⟩ := h
  have hruns := runs_of_exec_guarded hw
  exact ⟨w, hruns, hkeys, (accounted_of_runs hruns).1⟩

/-- Two channels of one viewer fail over to one stream within a millisecond. -/
def sameIdRun : List Event :=
  [.start 0 0 "1" "plex:7" 1000 .child, .start 0 0 "1" "plex:7" 1000 .child]

/-- **A child that no table has**: its session's id was given to another session. -/
theorem not_accounted : ∃ w, Runs World.step anyStep (.new 2) w ∧
    w.children.lookup 0 = some (.session (sessionIdOf "1" "plex:7" 1000)) ∧ ¬ Accounted w := by
  let sid := sessionIdOf "1" "plex:7" 1000
  let s (child : ℕ) : Session := ⟨"1", "plex:7", 0, 0, child⟩
  have h : ∃ w, exec World.step (.new 2) sameIdRun = some w ∧
      w.children.lookup 0 = some (.session sid) ∧
      w.reg.sessions = (Table.insert sid (s 0) ∅).insert sid (s 1) ∧ w.reg.draining = ∅ ∧
      w.reg.aux = ∅ := ⟨_, rfl, rfl, rfl, rfl, rfl⟩
  obtain ⟨w, hw, hchild, hsessions, hdraining, haux⟩ := h
  refine ⟨w, runs_of_exec hw, hchild, fun hacc => ?_⟩
  obtain ⟨p, hp, -⟩ := hacc.recorded 0 _ hchild (by simp)
  cases p with
  | session sid' =>
    obtain ⟨s', hs', hzero⟩ := hp
    rw [hsessions] at hs'
    by_cases heq : sid' = sid
    · rw [heq, AList.lookup_insert] at hs'
      obtain rfl := Option.some.inj hs'
      exact absurd hzero (by decide)
    · rw [AList.lookup_insert_ne heq, AList.lookup_insert_ne heq] at hs'
      cases hs'
  | draining =>
    rw [Registry.Holds, hdraining] at hp
    exact absurd hp (by simp)
  | aux =>
    rw [Registry.Holds, haux] at hp
    exact absurd hp (by simp)

end EmeraldExchange.Iptv.Remux
