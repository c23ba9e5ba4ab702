import EmeraldExchange.Transcoder.Supervisor

/-!
# Where an acknowledged seek lands

A caller of `seek` writes its target over the session's offset and only then asks for the restart;
the supervisor answers `true` once a child has been spawned. The question is whether that child was
spawned for the caller's target.

Two other writers share the offset. Another seek may write over it before the first one's `Restart`
is served, and a crash respawn reads the offset, computes, and writes back an advanced one. Both can
come between a seek's write and the snapshot its restart is made from (`not_seekLanded_crash`).
Exactly that is excluded, step by step, in `targetKept`; its last condition is about a caller that
has stopped waiting: its restart moves the child without an acknowledgement, and must not be the
last word after somebody else's.

Under these conditions a running child was spawned for the landing point of the last acknowledged
target, as long as no crash has come since (`seekLanded_of_runs`). By the invariant `SeekInv` the
offset on the map is the target of every seek that awaits its restart, or its landing point.
-/

namespace EmeraldExchange.Transcoder

/-! ### The property and its condition -/

/-- **An acknowledged seek lands at its target**: since the last acknowledgement and
before any crash, a running child was spawned for the landing point of the target that
was acknowledged. -/
def SeekLanded (t : Title) (w : World) : Prop :=
  ∀ c target, w.supervisor = .running c → w.lastAcked = some target →
    ∃ hit, c.spawnSecs = spawnTarget t hit target

/-- **Caller `k` awaits its restart**: its target is written, it has not given up, and no
respawn has read the session for it. -/
def Awaiting (w : World) (k : ℕ) (target : ℕ) : Prop :=
  (∃ backfill, w.callers k = .written target backfill) ∨
    (∃ backfill, w.callers k = .waiting target backfill) ∧
      (.restart k ∈ w.queue ∨ w.supervisor = .respawn (some k))

/-- **The condition**: no step comes between the write of a target and the restart that
is made for it. -/
def targetKept (w : World) : Action → Prop
  | .seekWrite k =>
    (∀ for_ secs prev, w.supervisor ≠ .snapped for_ secs prev) ∧
      ∀ j target, j ≠ k → ¬ Awaiting w j target
  | .snapshot => w.supervisor = .respawn none → ∀ j target, ¬ Awaiting w j target
  | .spawn true => ∀ k secs arg next, w.supervisor = .spawning (some k) secs arg next →
      (∀ target backfill, w.callers k ≠ .waiting target backfill) → w.lastAcked = none
  | _ => True

/-! ### The invariant -/

/-- The offset is a target, or the landing point of one. -/
def LeadsTo (t : Title) (target secs : ℕ) : Prop :=
  secs = target ∨ ∃ hit, secs = spawnTarget t hit target

theorem LeadsTo.spawnTarget {t : Title} {target secs : ℕ} (h : LeadsTo t target secs)
    (hit : Bool) : ∃ hit', spawnTarget t hit secs = spawnTarget t hit' target := by
  rcases h with rfl | ⟨hit', rfl⟩
  · exact ⟨hit, rfl⟩
  · exact spawnTarget_idem t hit' hit target

/-- The stages from a crash to the child that is respawned for it. -/
def AfterCrash : Supervisor → Prop
  | .crashed _ | .backoff | .respawn none | .snapped none _ _ | .spawning none _ _ _ => True
  | _ => False

/-- What the stages of a restart made for a caller say of the caller's target. -/
def RestartAt (t : Title) (w : World) : Supervisor → Prop
  | .snapped for_ secs _ =>
    (∀ s, w.session = some s → s.startSecs = secs) ∧
      (for_ = none → ∀ j target, ¬ Awaiting w j target) ∧
      ∀ k target backfill, for_ = some k → w.callers k = .waiting target backfill →
        LeadsTo t target secs
  | .spawning for_ secs _ _ =>
    ∀ k target backfill, for_ = some k → w.callers k = .waiting target backfill →
      ∃ hit, secs = spawnTarget t hit target
  | _ => True

def handledFor : Supervisor → Option ℕ
  | .respawn for_ | .snapped for_ _ _ | .spawning for_ _ _ _ => for_
  | _ => none

/-- A caller that has sent its `Restart`, and may have returned since. -/
def Sent (c : Caller) : Prop :=
  (∃ target backfill, c = .waiting target backfill) ∨ ∃ ack, c = .returned ack

/-- **The invariant of the seeks.** -/
structure SeekInv (t : Title) (w : World) : Prop where
  /-- The session's offset leads to every target that awaits its restart. -/
  awaiting : ∀ s, w.session = some s → ∀ k target, Awaiting w k target →
    LeadsTo t target s.startSecs
  /-- A `Restart` under way is one its caller has sent. -/
  sent : ∀ k, .restart k ∈ w.queue ∨ handledFor w.supervisor = some k → Sent (w.callers k)
  restart : RestartAt t w w.supervisor
  crash : AfterCrash w.supervisor → w.lastAcked = none
  landed : SeekLanded t w

section steps

variable {t : Title} {w w' : World} {k : ℕ}

/-- A step of the child, of the supervisor or of `stop`: the callers stay, and no
`Restart` appears. -/
theorem SeekInv.move (h : SeekInv t w) (hsession : ∀ s, w'.session = some s →
      ∃ s₀, w.session = some s₀ ∧ s₀.startSecs = s.startSecs)
    (hcallers : w'.callers = w.callers)
    (hqueue : ∀ j, .restart j ∈ w'.queue → .restart j ∈ w.queue)
    (hhandled : ∀ j, handledFor w'.supervisor = some j →
      .restart j ∈ w.queue ∨ handledFor w.supervisor = some j)
    (hrespawn : ∀ j, w'.supervisor = .respawn (some j) →
      .restart j ∈ w.queue ∨ w.supervisor = .respawn (some j))
    (hrestart : RestartAt t w' w'.supervisor)
    (hcrash : AfterCrash w'.supervisor → w'.lastAcked = none)
    (hlanded : SeekLanded t w') : SeekInv t w' where
  awaiting := by
    intro s hs k target hk
    obtain ⟨s₀, hs₀, hsecs⟩ := hsession s hs
    rw [← hsecs]
    refine h.awaiting s₀ hs₀ k target ?_
    rcases hk with hwritten | ⟨hwaiting, hunder⟩
    · exact Or.inl (by rwa [← hcallers])
    · refine Or.inr ⟨by rwa [← hcallers], ?_⟩
      rcases hunder with hq | hr
      · exact Or.inl (hqueue k hq)
      · exact hrespawn k hr
  sent := by
    rintro k (hq | hf)
    · exact hcallers ▸ h.sent k (Or.inl (hqueue k hq))
    · exact hcallers ▸ h.sent k (hhandled k hf)
  restart := hrestart
  crash := hcrash
  landed := hlanded

theorem RestartAt.frame (h : RestartAt t w w.supervisor) (hsup : w'.supervisor = w.supervisor)
    (hsession : ∀ s, w'.session = some s → w.session = some s) (hcallers : w'.callers = w.callers)
    (hqueue : ∀ j, .restart j ∈ w'.queue → .restart j ∈ w.queue) :
    RestartAt t w' w'.supervisor := by
  have hawait : ∀ j target, Awaiting w' j target → Awaiting w j target := by
    unfold Awaiting
    rw [hcallers, hsup]
    exact fun j target => Or.imp_right (And.imp_right (Or.imp_left (hqueue j)))
  rw [hsup]
  revert h
  unfold RestartAt
  split
  · rintro ⟨hsecs, hnone, hlead⟩
    exact ⟨fun s hs => hsecs s (hsession s hs),
      fun hf j target hj => hnone hf j target (hawait j target hj), hcallers ▸ hlead⟩
  · exact fun hlead => hcallers ▸ hlead
  · exact id

theorem SeekInv.moveCaller (h : SeekInv t w) {c : Caller} (hsession : w'.session = w.session)
    (hsup : w'.supervisor = w.supervisor) (hqueue : w'.queue = w.queue)
    (hlast : w'.lastAcked = w.lastAcked)
    (hcallers : w'.callers = Function.update w.callers k c)
    (hwritten : ∀ target backfill, c ≠ .written target backfill)
    (hwaiting : ∀ target backfill, c ≠ .waiting target backfill)
    (hsent : Sent (w.callers k) → Sent c) : SeekInv t w' := by
  -- nobody writes or waits who did not before
  have hold : ∀ j target backfill,
      (w'.callers j = .written target backfill → w.callers j = .written target backfill) ∧
        (w'.callers j = .waiting target backfill → w.callers j = .waiting target backfill) := by
    intro j target backfill
    rcases eq_or_ne j k with rfl | hne
    · simp [hcallers, hwritten, hwaiting]
    · simp [hcallers, hne]
  have hawait : ∀ j target, Awaiting w' j target → Awaiting w j target := by
    rintro j target (⟨b, hb⟩ | ⟨⟨b, hb⟩, hunder⟩)
    · exact Or.inl ⟨b, (hold j target b).1 hb⟩
    · exact Or.inr ⟨⟨b, (hold j target b).2 hb⟩, by rwa [← hqueue, ← hsup]⟩
  refine ⟨?_, ?_, ?_, ?_, ?_⟩
  · intro s hs j target hj
    exact h.awaiting s (hsession ▸ hs) j target (hawait j target hj)
  · intro j hj
    rw [hqueue, hsup] at hj
    have hj := h.sent j hj
    rcases eq_or_ne j k with rfl | hne
    · simpa [hcallers] using hsent hj
    · simpa [hcallers, hne] using hj
  · have hr := h.restart
    rw [hsup]
    revert hr
    unfold RestartAt
    split
    · rintro ⟨hsecs, hnone, hlead⟩
      exact ⟨fun s hs => hsecs s (hsession ▸ hs),
        fun hf j target hj => hnone hf j target (hawait j target hj),
        fun j target b hf hj => hlead j target b hf ((hold j target b).2 hj)⟩
    · exact fun hlead j target b hf hj => hlead j target b hf ((hold j target b).2 hj)
    · exact id
  · rw [hsup, hlast]
    exact h.crash
  · intro c target hc ht
    exact h.landed c target (hsup ▸ hc) (hlast ▸ ht)

/-- The end of a respawn, with an answer `a` to the caller it was made for. -/
theorem SeekInv.answered (h : SeekInv t w) {f : Option ℕ} {a : Bool}
    (hsession : w'.session = w.session) (hcallers : w'.callers = (w.answerFor f a).callers)
    (hqueue : w'.queue = w.queue) (hsup : handledFor w'.supervisor = none)
    (hrestart : RestartAt t w' w'.supervisor)
    (hcrash : AfterCrash w'.supervisor → w'.lastAcked = none)
    (hlanded : SeekLanded t w') : SeekInv t w' where
  awaiting := by
    intro s hs k target hk
    refine h.awaiting s (hsession ▸ hs) k target ?_
    have hold : ∀ c, (∀ ack, c ≠ .returned ack) → w'.callers k = c → w.callers k = c := by
      intro c hc hk
      rw [hcallers] at hk
      rcases w.answerFor_callers f a k with hsame | ⟨-, hret, -⟩
      · rwa [← hsame]
      · exact absurd (hk.symm.trans hret) (hc a)
    rcases hk with ⟨b, hb⟩ | ⟨⟨b, hb⟩, hq | hr⟩
    · exact Or.inl ⟨b, hold _ (by simp) hb⟩
    · exact Or.inr ⟨⟨b, hold _ (by simp) hb⟩, Or.inl (hqueue ▸ hq)⟩
    · rw [hr] at hsup
      cases hsup
  sent := by
    rintro k (hq | hf)
    · have hk := h.sent k (Or.inl (hqueue ▸ hq))
      rw [hcallers]
      rcases w.answerFor_callers f a k with hsame | ⟨-, hret, -⟩
      · exact (congrArg Sent hsame).mpr hk
      · exact Or.inr ⟨a, hret⟩
    · rw [hsup] at hf
      cases hf
  restart := hrestart
  crash := hcrash
  landed := hlanded

theorem SeekInv.gone (h : SeekInv t w) {f : Option ℕ} {dir : Dir} :
    SeekInv t { w.answerFor f false with dir := dir, supervisor := .exited } := by
  refine h.answered (by simp) rfl (by simp) rfl trivial False.elim ?_
  intro c target hc
  cases hc

theorem SeekInv.seekWrite (h : SeekInv t w) (hguard : targetKept w (.seekWrite k))
    (hstep : w.seekWrite k = some w') : SeekInv t w' := by
  obtain ⟨hsnap, hothers⟩ := hguard
  obtain ⟨target, b, hk, ⟨s, hs, rfl⟩ | ⟨hs, rfl⟩⟩ := World.seekWrite_cases hstep
  · have hnotSent : ¬ Sent (w.callers k) := by simp [hk, Sent]
    refine ⟨?_, ?_, ?_, h.crash, h.landed⟩
    · intro s' hs' j target' hj
      obtain rfl := Option.some.inj hs'
      rcases eq_or_ne j k with rfl | hne
      · -- the caller that writes: the offset is its own target
        rcases hj with ⟨b', hj⟩ | ⟨⟨b', hj⟩, -⟩
        · obtain ⟨rfl, -⟩ : target = target' ∧ b = b' := by simpa using hj
          exact Or.inl rfl
        · simp at hj
      · refine absurd ?_ (hothers j target' hne)
        rcases hj with ⟨b', hj⟩ | ⟨⟨b', hj⟩, hunder⟩
        · exact Or.inl ⟨b', by simpa [hne] using hj⟩
        · exact Or.inr ⟨⟨b', by simpa [hne] using hj⟩, hunder⟩
    · intro j hj
      have hsent := h.sent j hj
      rcases eq_or_ne j k with rfl | hne
      · exact absurd hsent hnotSent
      · simpa [hne] using hsent
    · have hr := h.restart
      show RestartAt t _ w.supervisor
      revert hr
      unfold RestartAt
      split
      · next f secs prev hf => exact absurd hf (hsnap f secs prev)
      · next f secs arg next hf =>
        intro hlead j target' b' hfj hj
        rcases eq_or_ne j k with rfl | hne
        · simp at hj
        · exact hlead j target' b' hfj (by simpa [hne] using hj)
      · exact id
  · exact h.moveCaller rfl rfl rfl rfl rfl (by simp) (by simp) (by simp [hk, Sent])

theorem SeekInv.seekSend (h : SeekInv t w) (hstep : w.seekSend k = some w') :
    SeekInv t w' := by
  obtain ⟨target, b, hk, ⟨hs, rfl⟩ | ⟨-, rfl⟩⟩ := World.seekSend_cases hstep
  · exact h.moveCaller rfl rfl rfl rfl rfl (by simp) (by simp) (by simp [hk, Sent])
  · have hnotSent : ¬ Sent (w.callers k) := by simp [hk, Sent]
    have hnotHandled : handledFor w.supervisor ≠ some k :=
      fun hf => hnotSent (h.sent k (Or.inr hf))
    -- the caller that sends was awaiting before, with the same target
    have hawait : ∀ j target', Awaiting { w.setCaller k (.waiting target b) with
        queue := w.queue ++ [.restart k] } j target' → Awaiting w j target' := by
      intro j target' hj
      rcases eq_or_ne j k with rfl | hne
      · rcases hj with ⟨b', hj⟩ | ⟨⟨b', hj⟩, -⟩
        · simp at hj
        · obtain ⟨rfl, -⟩ : target = target' ∧ b = b' := by simpa using hj
          exact Or.inl ⟨b, hk⟩
      · rcases hj with ⟨b', hj⟩ | ⟨⟨b', hj⟩, hunder⟩
        · exact Or.inl ⟨b', by simpa [hne] using hj⟩
        · refine Or.inr ⟨⟨b', by simpa [hne] using hj⟩, hunder.imp_left fun hq => ?_⟩
          simpa [hne] using hq
    refine ⟨?_, ?_, ?_, h.crash, h.landed⟩
    · exact fun s hs j target' hj => h.awaiting s hs j target' (hawait j target' hj)
    · intro j hj
      rcases eq_or_ne j k with rfl | hne
      · exact Or.inl ⟨target, b, by simp⟩
      · have hsent := h.sent j (hj.imp_left fun hq => by simpa [hne] using hq)
        simpa [hne] using hsent
    · have hr := h.restart
      have hf : ∀ j, handledFor w.supervisor = some j → j ≠ k := by
        rintro j hj rfl
        exact hnotHandled hj
      show RestartAt t _ w.supervisor
      revert hr hf
      unfold RestartAt
      split
      · next hsup =>
        rintro ⟨hsecs, hnone, hlead⟩ hf
        refine ⟨hsecs, fun hn j target' hj => hnone hn j target' (hawait j target' hj), ?_⟩
        intro j target' b' hfj hj
        have hne := hf j (by rw [hsup]; exact hfj)
        exact hlead j target' b' hfj (by simpa [hne] using hj)
      · next hsup =>
        intro hlead hf j target' b' hfj hj
        have hne := hf j (by rw [hsup]; exact hfj)
        exact hlead j target' b' hfj (by simpa [hne] using hj)
      · exact fun _ _ => trivial

theorem SeekInv.snapshot (h : SeekInv t w) (hguard : targetKept w .snapshot)
    (hstep : w.snapshot = some w') : SeekInv t w' := by
  obtain ⟨f, hc, ⟨s, hs, rfl⟩ | ⟨hs, rfl⟩⟩ := World.snapshot_cases hstep
  · refine h.move (fun s hs => ⟨s, hs, rfl⟩) rfl (fun _ => id) ?_ (fun _ hr => by cases hr) ?_ ?_ ?_
    · intro j hj
      exact Or.inr (by rw [hc]; exact hj)
    · refine ⟨fun s' hs' => ?_, ?_, ?_⟩
      · obtain rfl := Option.some.inj (hs.symm.trans hs')
        rfl
      · rintro rfl j target hj
        refine hguard hc j target ?_
        rcases hj with hj | ⟨hj, hq | hr⟩
        · exact Or.inl hj
        · exact Or.inr ⟨hj, Or.inl hq⟩
        · cases hr
      · rintro k target b rfl hk
        exact h.awaiting s hs k target (Or.inr ⟨⟨b, hk⟩, Or.inr hc⟩)
    · cases f with
      | none => exact fun _ => h.crash (by rw [hc]; trivial)
      | some k => exact False.elim
    · intro c target hc'
      cases hc'
  · exact h.gone

theorem SeekInv.writeBack {hit : Bool} (h : SeekInv t w) (hstep : w.writeBack t hit = some w') :
    SeekInv t w' := by
  obtain ⟨f, secs, prev, hc, ⟨s, arg, next, spawnSecs, onGrid, _, hs, hparams, rfl⟩ |
    ⟨hs, rfl⟩⟩ := World.writeBack_cases hstep
  · have hr := h.restart
    rw [hc] at hr
    obtain ⟨hsecs, hnone, hlead⟩ := hr
    have hspawn : ∀ k, f = some k → spawnSecs = spawnTarget t hit secs := by
      rintro k rfl
      rw [← World.respawnParams_restart t hit w.dir k secs prev, hparams]
    refine ⟨?_, ?_, ?_, ?_, ?_⟩
    · intro s' hs' j target hj
      obtain rfl := Option.some.inj hs'
      have hold : Awaiting w j target := by
        rcases hj with hj | ⟨hj, hq | hr⟩
        · exact Or.inl hj
        · exact Or.inr ⟨hj, Or.inl hq⟩
        · cases hr
      cases f with
      | none => exact absurd hold (hnone rfl j target)
      | some k =>
        -- landing once more from an offset that leads to the target
        have hold := h.awaiting s hs j target hold
        rw [hsecs s hs] at hold
        exact Or.inr (hspawn k rfl ▸ hold.spawnTarget hit)
    · rintro j (hq | hf)
      · exact h.sent j (Or.inl hq)
      · exact h.sent j (Or.inr (by rw [hc]; exact hf))
    · intro k target b hf hk
      exact hspawn k hf ▸ (hlead k target b hf hk).spawnTarget hit
    · cases f with
      | none => exact fun _ => h.crash (by rw [hc]; trivial)
      | some k => exact False.elim
    · intro c target hc'
      cases hc'
  · exact h.gone

theorem SeekInv.spawn {ok : Bool} (h : SeekInv t w) (hguard : targetKept w (.spawn ok))
    (hstep : w.spawn ok = some w') : SeekInv t w' := by
  obtain ⟨f, secs, arg, next, hc, ⟨dir, -, rfl, rfl, rfl⟩ | ⟨-, rfl⟩ | rfl⟩ :=
    World.spawn_cases hstep
  · refine h.answered (by simp) rfl (by simp) rfl trivial False.elim ?_
    intro c target hc' hlast
    obtain rfl := Supervisor.running.inj hc'
    have hr := h.restart
    rw [hc] at hr
    rcases w.answerFor_lastAcked f with ⟨k, target', b, hf, hk, hacked⟩ | ⟨hnobody, hacked⟩
    · obtain rfl : target' = target := Option.some.inj (hacked.symm.trans hlast)
      exact hr k target' b hf hk
    · -- nobody waited for this child: then nothing is acknowledged
      have hnone : w.lastAcked = none := by
        cases f with
        | none => exact h.crash (by rw [hc]; trivial)
        | some k => exact hguard k secs arg next hc fun target b => hnobody k target b rfl
      rw [hnone] at hacked
      cases hacked.symm.trans hlast
  · exact h.gone
  · refine h.answered (by simp) rfl (by simp) rfl trivial (fun _ => rfl) ?_
    intro c target hc'
    cases hc'

/-- **A step that meets the condition keeps the invariant.** -/
theorem SeekInv.step {a : Action} (h : SeekInv t w) (hguard : targetKept w a)
    (hstep : step t w a = some w') : SeekInv t w' := by
  cases a with
  | childWrite =>
    obtain ⟨c, hc, rfl⟩ := World.childWrite_cases hstep
    refine h.move (fun s hs => ⟨s, hs, rfl⟩) rfl (fun _ => id) (fun _ => Or.inr) (fun _ => Or.inr)
      ?_ h.crash h.landed
    show RestartAt t _ w.supervisor
    rw [hc]
    trivial
  | childList =>
    obtain ⟨c, hc, rfl⟩ := World.childList_cases hstep
    refine h.move (fun s hs => ⟨s, hs, rfl⟩) rfl (fun _ => id) (fun _ hf => by cases hf)
      (fun _ hr => by cases hr) trivial False.elim ?_
    intro c' target hc' ht
    obtain rfl := Supervisor.running.inj hc'
    exact h.landed c target hc ht
  | childPrune =>
    obtain ⟨c, oldest, listed, hc, -, -, rfl⟩ := World.childPrune_cases hstep
    refine h.move (fun s hs => ⟨s, hs, rfl⟩) rfl (fun _ => id) (fun _ => Or.inr) (fun _ => Or.inr)
      ?_ h.crash h.landed
    show RestartAt t _ w.supervisor
    rw [hc]
    trivial
  | childExit success ranHealthily =>
    obtain ⟨-, rfl | rfl⟩ := World.childExit_cases hstep
    · exact h.move (fun s hs => ⟨s, hs, rfl⟩) rfl (fun _ => id) (fun _ hf => by cases hf)
        (fun _ hr => by cases hr) trivial False.elim (fun _ _ hc => by cases hc)
    · exact h.move (fun s hs => ⟨s, hs, rfl⟩) rfl (fun _ => id) (fun _ hf => by cases hf)
        (fun _ hr => by cases hr) trivial (fun _ => rfl) (fun _ _ hc => by cases hc)
  | callSeek k target =>
    obtain ⟨hk, rfl⟩ := World.callSeek_cases hstep
    exact h.moveCaller rfl rfl rfl rfl rfl (by simp) (by simp) (by simp [hk, Sent])
  | callBackfill k index =>
    obtain ⟨hk, c, rfl, ⟨first, rfl⟩ | rfl⟩ := World.callBackfill_cases hstep
    all_goals exact h.moveCaller rfl rfl rfl rfl rfl (by simp) (by simp) (by simp [hk, Sent])
  | decideBackfill k hit =>
    obtain ⟨⟨index, first, hk⟩, c, b, rfl, ⟨secs, rfl⟩ | rfl⟩ := World.decideBackfill_cases hstep
    all_goals exact h.moveCaller rfl rfl rfl rfl rfl (by simp) (by simp) (by simp [hk, Sent])
  | seekWrite k => exact h.seekWrite hguard hstep
  | seekSend k => exact h.seekSend hstep
  | seekTimeout k =>
    obtain ⟨target, b, hk, rfl⟩ := World.seekTimeout_cases hstep
    exact h.moveCaller rfl rfl rfl rfl rfl (by simp) (by simp) (by simp [Sent])
  | takeCmd =>
    obtain ⟨hsup, ⟨k, queue, hq, rfl⟩ | ⟨queue, hq, rfl⟩⟩ := World.takeCmd_cases hstep
    · refine h.move (fun s hs => ⟨s, hs, rfl⟩) rfl ?_ ?_ ?_ trivial False.elim
        (fun _ _ hc => by cases hc)
      · exact fun j hj => hq ▸ List.mem_cons_of_mem _ hj
      · intro j hj
        obtain rfl := Option.some.inj hj
        exact Or.inl (hq ▸ List.mem_cons_self)
      · intro j hj
        obtain rfl := Option.some.inj (Supervisor.respawn.inj hj)
        exact Or.inl (hq ▸ List.mem_cons_self)
    · exact h.move (fun s hs => ⟨s, hs, rfl⟩) rfl
        (fun j hj => hq ▸ List.mem_cons_of_mem _ hj) (fun _ hf => by cases hf)
        (fun _ hr => by cases hr) trivial False.elim (fun _ _ hc => by cases hc)
  | chargeRestart =>
    obtain ⟨⟨b, hc⟩, ⟨s, restarts, hs, rfl⟩ | ⟨dir, rfl⟩⟩ := World.chargeRestart_cases hstep
    · refine h.move ?_ rfl (fun _ => id) (fun _ hf => by cases hf) (fun _ hr => by cases hr) trivial
        (fun _ => h.crash (by rw [hc]; trivial)) (fun _ _ hc => by cases hc)
      intro s' hs'
      obtain rfl := Option.some.inj hs'
      exact ⟨s, hs, rfl⟩
    · exact h.move (fun _ hs => by cases hs) rfl (fun _ => id) (fun _ hf => by cases hf)
        (fun _ hr => by cases hr) trivial False.elim (fun _ _ hc => by cases hc)
  | backoffElapsed =>
    obtain ⟨hc, rfl⟩ := World.backoffElapsed_cases hstep
    exact h.move (fun s hs => ⟨s, hs, rfl⟩) rfl (fun _ => id) (fun _ hf => by cases hf)
      (fun _ hr => by cases hr) trivial (fun _ => h.crash (by rw [hc]; trivial))
      (fun _ _ hc => by cases hc)
  | snapshot => exact h.snapshot hguard hstep
  | writeBack hit => exact h.writeBack hstep
  | spawn ok => exact h.spawn hguard hstep
  | stopRemove =>
    obtain rfl := World.stopRemove_cases hstep
    exact h.move (fun _ hs => by cases hs) rfl (fun _ => id) (fun _ => Or.inr) (fun _ => Or.inr)
      (h.restart.frame rfl (fun _ hs => by cases hs) rfl fun _ => id) h.crash h.landed
  | stopSend =>
    obtain ⟨queue, hq, rfl⟩ := World.stopSend_cases hstep
    have hsame : ∀ j, .restart j ∈ queue → .restart j ∈ w.queue := by
      rintro j hj
      rcases hq with rfl | rfl
      · exact hj
      · simpa using hj
    exact h.move (fun s hs => ⟨s, hs, rfl⟩) rfl hsame (fun _ => Or.inr) (fun _ => Or.inr)
      (h.restart.frame rfl (fun _ => id) rfl hsame) h.crash h.landed

theorem seekInv_start (t : Title) (hit : Bool) (startSecs : ℕ) :
    SeekInv t (World.start t hit startSecs) where
  awaiting := by
    rintro s - k target (⟨b, hb⟩ | ⟨⟨b, hb⟩, -⟩) <;> cases hb
  sent := by
    rintro k (hq | hf)
    · cases hq
    · cases hf
  restart := trivial
  crash := False.elim
  landed := by
    intro c target _ ht
    cases ht

/-- **An acknowledged seek lands at its target, along every run in which targets are
kept.** -/
theorem seekLanded_of_runs (t : Title) (hit : Bool) (startSecs : ℕ) {w : World}
    (h : Runs (step t) targetKept (World.start t hit startSecs) w) : SeekLanded t w :=
  (Runs.invariant (P := SeekInv t) h (seekInv_start t hit startSecs)
    fun _ _ _ hv hguard hstep => hv.step hguard hstep).landed

end steps

/-! ### A seek that meets a crash -/

/-- A title that is encoded anew, four hundred seconds long. -/
def encodedTitle : Title where
  plan := .transcode .encodeH264
  live := false
  durationSecs := some 400
  keyframes := []
  ascending := .nil

/-- A seek to second 101 that nothing interferes with lands at second 100, where
segment 50 opens. -/
theorem seekLanded_alone :
    ∃ w, Runs (step encodedTitle) targetKept (World.start encodedTitle false 0) w ∧
      w.supervisor = .running ⟨100, 50, 50⟩ ∧ w.lastAcked = some 101 ∧
      SeekLanded encodedTitle w := by
  have hwrite : targetKept ((World.start encodedTitle false 0).setCaller 0 (.ready 101 false))
      (.seekWrite 0) := by
    refine ⟨fun _ _ _ hsup => (by cases hsup), ?_⟩
    rintro j target hj (⟨b, hb⟩ | ⟨⟨b, hb⟩, -⟩)
    all_goals simp [hj, World.start] at hb
  have hrun : ∃ w, Runs (step encodedTitle) targetKept (World.start encodedTitle false 0) w ∧
      w.supervisor = .running ⟨100, 50, 50⟩ ∧ w.lastAcked = some 101 :=
    ⟨_, .head ⟨.callSeek 0 101, trivial, rfl⟩ <| .head ⟨.seekWrite 0, hwrite, rfl⟩ <|
      .head ⟨.seekSend 0, trivial, rfl⟩ <| .head ⟨.takeCmd, trivial, rfl⟩ <|
      .head ⟨.snapshot, (fun hsup => by cases hsup), rfl⟩ <|
      .head ⟨.writeBack false, trivial, rfl⟩ <|
      .head ⟨.spawn true, (fun k _ _ _ hsup hwait => by
        cases hsup; exact absurd rfl (hwait 101 false)), rfl⟩ .refl, rfl, rfl⟩
  obtain ⟨w, hw, hchild, hacked⟩ := hrun
  exact ⟨w, hw, hchild, hacked, seekLanded_of_runs encodedTitle false 0 hw⟩

/-- **A crash respawn moves an acknowledged seek.** The seek writes its target 100 while
the supervisor waits out the backoff of a crash after one segment. The backoff ends before
the `Restart` is sent: the crash respawn reads the target, advances it by the two seconds
the dead child had listed, and writes it back; the restart then lands at second 102, and
the seek is acknowledged. -/
theorem not_seekLanded_crash :
    ∃ w, Runs (step encodedTitle) anyStep (World.start encodedTitle false 0) w ∧
      ¬ SeekLanded encodedTitle w := by
  have hexec : ∃ w, exec (step encodedTitle) (World.start encodedTitle false 0)
      [.callSeek 0 100, .childList, .childExit false false, .chargeRestart, .seekWrite 0,
        .backoffElapsed, .snapshot, .writeBack false, .spawn true, .seekSend 0, .takeCmd,
        .snapshot, .writeBack false, .spawn true] = some w ∧ ¬ SeekLanded encodedTitle w := by
    refine ⟨_, rfl, fun h => ?_⟩
    obtain ⟨hit, hsecs⟩ := h _ _ rfl rfl
    revert hsecs
    cases hit <;> decide
  exact exists_runs_of_exec hexec

end EmeraldExchange.Transcoder
