import EmeraldExchange.Transcoder.Supervisor

/-!
# Number and time stay together

A session on the absolute grid promises that segment `i` is the stretch of the title that the
synthesized playlist lists as segment `i`. The promise is about two numbers of the running child –
the offset it was spawned at and its first segment – and this file follows it through every run.

A landing point keeps it by construction (`gridStart_onGrid`). A crash respawn advances the number
by the segments that are listed, and the offset by two seconds for each. Where the video is encoded
anew that is what a segment lasts (`gridKept_of_reencode`). A copy's segments last as long as the
source's keyframes are apart, and there the estimate may fall into another segment
(`not_gridKept_sparse`); the promise is kept exactly as long as every crash respawn finds its
estimate in the segment it is about to number (`gridKept_of_runs`).

`NumberInv` is about numbers alone and needs no condition: what is listed are consecutive segments,
the last of them just before the one the child writes. `GridInv` is the promise, for each place
where the supervisor may stand; it is silent while a seek whose `Restart` has not been taken has
written its target over the session's offset.
-/

namespace EmeraldExchange.Transcoder

/-! ### The promise -/

/-- Where segment `i` of the title opens, on the absolute grid. -/
def titleSegment (t : Title) (i : ℕ) : Option ℚ :=
  if t.plan.reencodesVideo then some (i * hlsSegmentSecs : ℕ)
  else t.durationSecs.bind fun total => copySegmentStart t.keyframes total i

/-- Where segment `i` of a child opens, counting from the child's own offset and number. -/
def childSegment (t : Title) (c : Child) (i : ℕ) : Option ℚ :=
  if t.plan.reencodesVideo then
    some (c.spawnSecs + (i - c.startNumber) * hlsSegmentSecs : ℕ)
  else t.durationSecs.bind fun total => copySegmentStart t.keyframes total
    ((copyResumeBase t.keyframes total c.spawnSecs).1 + (i - c.startNumber))

/-- **The promise of a session on the grid.** While no seek is in progress, the running
child is the one the session numbers, number and time of its first segment agree, and
so each of its segment names stands for the title's segment of that number. -/
def GridKept (t : Title) (w : World) : Prop :=
  ∀ s c, w.session = some s → s.onGrid = true → w.supervisor = .running c →
    ¬ SeekInProgress w →
      c.startNumber = s.startNumber ∧ OnGrid t c.spawnSecs s.startNumber ∧
        ∀ i, c.startNumber ≤ i → childSegment t c i = titleSegment t i

theorem childSegment_eq {t : Title} {c : Child} (h : OnGrid t c.spawnSecs c.startNumber) {i : ℕ}
    (hi : c.startNumber ≤ i) : childSegment t c i = titleSegment t i := by
  unfold OnGrid at h
  unfold childSegment titleSegment
  split at h
  · next hre =>
    rw [if_pos hre, if_pos hre, h, ← Nat.add_mul, Nat.add_sub_cancel' hi]
  · next hre =>
    rw [if_neg hre, if_neg hre]
    cases hd : t.durationSecs with
    | none => rfl
    | some total =>
      have htotal := h total hd
      simp only [Option.bind_some]
      rw [htotal, Nat.add_sub_cancel' hi]

/-! ### Consecutive segments -/

/-- The listed segments are consecutive and end just before `next`. -/
def ListedTo (listed : List ℕ) (next : ℕ) : Prop :=
  listed.length ≤ next ∧ listed = List.range' (next - listed.length) listed.length

theorem listedTo_nil (next : ℕ) : ListedTo [] next := ⟨Nat.zero_le _, rfl⟩

theorem ListedTo.concat {listed : List ℕ} {next : ℕ} (h : ListedTo listed next) :
    ListedTo (listed ++ [next]) (next + 1) := by
  obtain ⟨hlen, heq⟩ := h
  refine ⟨by simpa using hlen, ?_⟩
  have hstart : next + 1 - (listed ++ [next]).length = next - listed.length := by simp
  have hlast : next - listed.length + listed.length = next := Nat.sub_add_cancel hlen
  rw [hstart, List.length_append, List.length_singleton, List.range'_concat, ← heq, one_mul,
    hlast]

theorem ListedTo.tail {listed : List ℕ} {oldest next : ℕ} (h : ListedTo (oldest :: listed) next) :
    ListedTo listed next := by
  obtain ⟨hlen, heq⟩ := h
  rw [List.length_cons] at hlen heq
  refine ⟨by omega, ?_⟩
  rw [List.range'_succ, List.cons.injEq] at heq
  rw [heq.2]
  congr 1
  · simp; omega
  · simp

theorem crashResume_spec {listed : List ℕ} {next prev : ℕ} (h : ListedTo listed next)
    (hprev : prev ≤ next) :
    prev ≤ (crashResume listed prev).2 ∧
      (crashResume listed prev).1 + listed.length = (crashResume listed prev).2 ∧
      ListedTo listed (crashResume listed prev).2 := by
  obtain ⟨hlen, heq⟩ := h
  cases listed with
  | nil => exact ⟨le_rfl, rfl, listedTo_nil _⟩
  | cons first rest =>
    rw [List.length_cons, List.range'_succ, List.cons.injEq] at heq
    rw [List.length_cons] at hlen
    have hnext : (crashResume (first :: rest) prev).2 = next := by
      simp only [crashResume, List.length_cons]
      omega
    refine ⟨hnext ▸ hprev, rfl, ?_⟩
    rw [hnext]
    refine ⟨by simpa using hlen, ?_⟩
    rw [List.length_cons, List.range'_succ, List.cons.injEq]
    exact heq

/-! ### The invariant of the numbers -/

/-- What the number of a session means where the supervisor stands. -/
def NumberAt (listed : List ℕ) (number : ℕ) : Supervisor → Prop
  | .running c => number = c.startNumber ∧ c.startNumber ≤ c.next ∧ ListedTo listed c.next
  | .completed | .crashed _ | .backoff | .respawn _ =>
    ∃ next, number ≤ next ∧ ListedTo listed next
  | .snapped _ _ prev => prev = number ∧ ∃ next, number ≤ next ∧ ListedTo listed next
  | .spawning none _ arg next =>
    number = next ∧ arg + listed.length = next ∧ ListedTo listed next
  | .spawning (some _) _ arg next => number = next ∧ arg = next
  | .exited => True

/-- **The numbers are in order.** -/
def NumberInv (w : World) : Prop :=
  ∀ s, w.session = some s → NumberAt w.dir.listed s.startNumber w.supervisor

section numbers

variable {t : Title} {w w' : World}

theorem NumberInv.frame (h : NumberInv w) (hsup : w'.supervisor = w.supervisor)
    (hlisted : w'.dir.listed = w.dir.listed)
    (hsession : ∀ s', w'.session = some s' →
      ∃ s, w.session = some s ∧ s.startNumber = s'.startNumber) : NumberInv w' := by
  intro s' hs'
  obtain ⟨s, hs, hnumber⟩ := hsession s' hs'
  rw [hsup, hlisted, ← hnumber]
  exact h s hs

theorem NumberInv.of_none (h : w.session = none) : NumberInv w := by
  intro s hs
  rw [h] at hs
  cases hs

theorem NumberInv.of_exited (h : w.supervisor = .exited) : NumberInv w := by
  intro s _
  rw [h]
  trivial

theorem NumberInv.childStep (h : NumberInv w) {c : Child} (hc : w.supervisor = .running c)
    (hsession : w'.session = w.session)
    (hat : ∀ number, NumberAt w.dir.listed number (.running c) →
      NumberAt w'.dir.listed number w'.supervisor) : NumberInv w' := by
  intro s hs
  rw [hsession] at hs
  have hw := h s hs
  rw [hc] at hw
  exact hat _ hw

theorem NumberInv.writeBack {hit : Bool} (h : NumberInv w)
    (hstep : w.writeBack t hit = some w') : NumberInv w' := by
  obtain ⟨f, secs, prev, hsup, ⟨s, arg, next, spawnSecs, onGrid, _, hs, hparams, rfl⟩ |
    ⟨hs, rfl⟩⟩ := World.writeBack_cases hstep
  · intro s' hs'
    obtain rfl := Option.some.inj hs'
    have hw := h s hs
    rw [hsup] at hw
    obtain ⟨rfl, frontier, hle, hlisted⟩ := hw
    cases f with
    | none =>
      simp only [World.respawnParams, Prod.mk.injEq] at hparams
      obtain ⟨rfl, rfl, -⟩ := hparams
      exact ⟨rfl, (crashResume_spec hlisted hle).2⟩
    | some k =>
      refine ⟨rfl, ?_⟩
      unfold World.respawnParams at hparams
      simp only at hparams
      split at hparams <;> simp only [Prod.mk.injEq] at hparams <;>
        exact hparams.1.symm.trans hparams.2.1
  · exact .of_exited rfl

/-- **A step keeps the numbers in order.** -/
theorem NumberInv.step {a : Action} (h : NumberInv w) (hstep : step t w a = some w') :
    NumberInv w' := by
  cases a with
  | childWrite =>
    obtain ⟨c, hc, rfl⟩ := World.childWrite_cases hstep
    exact h.frame rfl rfl fun s hs => ⟨s, hs, rfl⟩
  | childList =>
    obtain ⟨c, hc, rfl⟩ := World.childList_cases hstep
    refine h.childStep hc rfl fun number hat => ?_
    exact ⟨hat.1, hat.2.1.trans (Nat.le_succ _), hat.2.2.concat⟩
  | childPrune =>
    obtain ⟨c, oldest, listed, hc, hl, -, rfl⟩ := World.childPrune_cases hstep
    refine h.childStep hc rfl fun number hat => ?_
    rw [hl] at hat
    rw [hc]
    exact ⟨hat.1, hat.2.1, hat.2.2.tail⟩
  | childExit success ranHealthily =>
    obtain ⟨⟨c, hc⟩, rfl | rfl⟩ := World.childExit_cases hstep
    all_goals exact h.childStep hc rfl fun number hat => ⟨c.next, hat.1 ▸ hat.2.1, hat.2.2⟩
  | callSeek k target =>
    obtain ⟨-, rfl⟩ := World.callSeek_cases hstep
    exact h.frame rfl rfl fun s hs => ⟨s, hs, rfl⟩
  | callBackfill k index =>
    obtain ⟨-, c, rfl, -⟩ := World.callBackfill_cases hstep
    exact h.frame rfl rfl fun s hs => ⟨s, hs, rfl⟩
  | decideBackfill k hit =>
    obtain ⟨-, c, b, rfl, -⟩ := World.decideBackfill_cases hstep
    exact h.frame rfl rfl fun s hs => ⟨s, hs, rfl⟩
  | seekWrite k =>
    obtain ⟨target, b, -, ⟨s, hs, rfl⟩ | ⟨hs, rfl⟩⟩ := World.seekWrite_cases hstep
    · refine h.frame rfl rfl ?_
      intro s' hs'
      obtain rfl := Option.some.inj hs'
      exact ⟨s, hs, rfl⟩
    · exact .of_none hs
  | seekSend k =>
    obtain ⟨target, b, -, ⟨-, rfl⟩ | ⟨-, rfl⟩⟩ := World.seekSend_cases hstep
    all_goals exact h.frame rfl rfl fun s hs => ⟨s, hs, rfl⟩
  | seekTimeout k =>
    obtain ⟨target, b, -, rfl⟩ := World.seekTimeout_cases hstep
    exact h.frame rfl rfl fun s hs => ⟨s, hs, rfl⟩
  | takeCmd =>
    obtain ⟨hsup, ⟨k, queue, -, rfl⟩ | ⟨queue, -, rfl⟩⟩ := World.takeCmd_cases hstep
    · intro s hs
      have hw := h s hs
      rcases hsup with ⟨c, hc⟩ | hc | hc <;> rw [hc] at hw
      · exact ⟨c.next, hw.1 ▸ hw.2.1, hw.2.2⟩
      · exact hw
      · exact hw
    · exact .of_exited rfl
  | chargeRestart =>
    obtain ⟨⟨b, hc⟩, ⟨s, restarts, hs, rfl⟩ | ⟨dir, rfl⟩⟩ := World.chargeRestart_cases hstep
    · intro s' hs'
      obtain rfl := Option.some.inj hs'
      have hw := h s hs
      rw [hc] at hw
      exact hw
    · exact .of_none rfl
  | backoffElapsed =>
    obtain ⟨hc, rfl⟩ := World.backoffElapsed_cases hstep
    intro s hs
    have hw := h s hs
    rw [hc] at hw
    exact hw
  | snapshot =>
    obtain ⟨f, hc, ⟨s, hs, rfl⟩ | ⟨hs, rfl⟩⟩ := World.snapshot_cases hstep
    · intro s' hs'
      obtain rfl : s = s' := Option.some.inj (hs.symm.trans hs')
      have hw := h s hs
      rw [hc] at hw
      exact ⟨rfl, hw⟩
    · exact .of_exited rfl
  | writeBack hit => exact h.writeBack hstep
  | spawn ok =>
    obtain ⟨f, secs, arg, next, hc, ⟨dir, -, rfl, -, rfl⟩ | ⟨hs, rfl⟩ | rfl⟩ :=
      World.spawn_cases hstep
    · intro s hs
      have hw := h s (by simpa using hs)
      rw [hc] at hw
      cases f with
      | none => exact ⟨hw.1.trans hw.2.1.symm, le_rfl, by simpa [hw.2.1] using hw.2.2⟩
      | some k => exact ⟨by simpa [hw.2] using hw.1, le_rfl, listedTo_nil _⟩
    · exact .of_exited rfl
    · intro s hs
      have hw := h s (by simpa using hs)
      rw [hc] at hw
      cases f with
      | none => exact ⟨next, hw.1.le, hw.2.2⟩
      | some k => exact ⟨next, hw.1.le, listedTo_nil _⟩
  | stopRemove =>
    obtain rfl := World.stopRemove_cases hstep
    exact .of_none rfl
  | stopSend =>
    obtain ⟨queue, -, rfl⟩ := World.stopSend_cases hstep
    exact h.frame rfl rfl fun s hs => ⟨s, hs, rfl⟩

theorem numberInv_start (t : Title) (hit : Bool) (startSecs : ℕ) :
    NumberInv (World.start t hit startSecs) := by
  intro s' hs'
  obtain rfl := Option.some.inj hs'
  exact ⟨rfl, le_rfl, listedTo_nil _⟩

end numbers

/-! ### The invariant of the grid -/

/-- What the promise says where the supervisor stands, while no seek is `pending`. -/
def GridAt (t : Title) (pending : Prop) (startSecs startNumber : ℕ) : Supervisor → Prop
  | .running c => ¬ pending → OnGrid t c.spawnSecs c.startNumber ∧ startSecs = c.spawnSecs
  | .completed | .crashed _ | .backoff | .respawn none => ¬ pending → OnGrid t startSecs startNumber
  | .snapped none secs prev => ¬ pending → OnGrid t secs prev
  | .spawning _ secs _ next => ¬ pending → OnGrid t secs next ∧ startSecs = secs
  | .respawn (some _) | .snapped (some _) _ _ | .exited => True

/-- **Number and time agree**, for a session on the grid. -/
def GridInv (t : Title) (w : World) : Prop :=
  ∀ s, w.session = some s → s.onGrid = true →
    GridAt t (SeekPending w) s.startSecs s.startNumber w.supervisor

/-- The segments finished since the child that numbers from `prev` was spawned. -/
def finishedSince (listed : List ℕ) (prev : ℕ) : ℕ :=
  (listed.getLast?.map (· + 1 - prev)).getD 0

/-- **The grid keeps pace with two seconds a segment**: two seconds for each of the
`finished` segments after second `startSecs` lead into the segment that comes after
them on the title's own grid. -/
def KeepsPace (t : Title) (startSecs number finished : ℕ) : Prop :=
  ∀ total ∈ t.durationSecs, ∃ opens,
    copySegmentStart t.keyframes total (number + finished) = some opens ∧
      opens ≤ (startSecs + finished * hlsSegmentSecs : ℕ) ∧
      ∀ next, copySegmentStart t.keyframes total (number + finished + 1) = some next →
        ((startSecs + finished * hlsSegmentSecs : ℕ) : ℚ) < next

/-- **The condition**: a copy on the grid that respawns after a crash, with no seek
under way, keeps pace. -/
def crashKeepsPace (t : Title) (w : World) : Action → Prop
  | .writeBack _ => t.plan.reencodesVideo = false → ∀ s secs prev, w.session = some s →
      s.onGrid = true → w.supervisor = .snapped none secs prev → ¬ SeekPending w →
      KeepsPace t secs prev (finishedSince w.dir.listed prev)
  | _ => True

section grid

variable {t : Title} {w w' : World}

theorem gridAt_of_pending {pending : Prop} (h : pending) (startSecs startNumber : ℕ)
    (sup : Supervisor) : GridAt t pending startSecs startNumber sup := by
  unfold GridAt
  split <;> first | trivial | exact fun hn => absurd h hn

theorem GridAt.mono {pending pending' : Prop} (hp : pending → pending')
    {startSecs startNumber : ℕ} {sup : Supervisor}
    (h : GridAt t pending startSecs startNumber sup) :
    GridAt t pending' startSecs startNumber sup := by
  by_cases hpending : pending
  · exact gridAt_of_pending (hp hpending) _ _ _
  · unfold GridAt at h ⊢
    split at h <;> first | trivial | exact fun _ => h hpending

theorem GridInv.frame (h : GridInv t w) (hsup : w'.supervisor = w.supervisor)
    (hsession : w'.session = w.session) (hpending : SeekPending w → SeekPending w') :
    GridInv t w' := by
  intro s hs hgrid
  rw [hsession] at hs
  rw [hsup]
  exact (h s hs hgrid).mono hpending

theorem GridInv.of_none (h : w.session = none) : GridInv t w := by
  intro s hs
  rw [h] at hs
  cases hs

theorem GridInv.of_exited (h : w.supervisor = .exited) : GridInv t w := by
  intro s _ _
  rw [h]
  trivial

/-- The last listed segment is the one before `next`. -/
theorem crashResume_snd {listed : List ℕ} {next prev : ℕ} (h : ListedTo listed next)
    (hprev : prev ≤ next) :
    (crashResume listed prev).2 = prev + finishedSince listed prev := by
  obtain ⟨hlen, heq⟩ := h
  cases listed with
  | nil => rfl
  | cons first rest =>
    have hfirst : first = next - (rest.length + 1) := by
      rw [List.length_cons, List.range'_succ, List.cons.injEq] at heq
      exact heq.1
    rw [List.length_cons] at hlen
    have hlast : (first :: rest).getLast? = some (next - 1) := by
      rw [heq, List.length_cons, List.range'_concat, List.getLast?_concat]
      congr 1
      omega
    simp only [finishedSince, hlast, crashResume, Option.map_some, Option.getD_some,
      List.length_cons]
    omega

theorem onGrid_crashResume {secs prev : ℕ} {listed : List ℕ} {next : ℕ}
    (hgrid : OnGrid t secs prev) (hlisted : ListedTo listed next) (hprev : prev ≤ next)
    (hpace : t.plan.reencodesVideo = false →
      KeepsPace t secs prev (finishedSince listed prev)) :
    OnGrid t (crashResumeSecs secs prev (crashResume listed prev).2)
      (crashResume listed prev).2 := by
  rw [crashResume_snd hlisted hprev, crashResumeSecs, Nat.add_sub_cancel_left]
  unfold OnGrid at hgrid ⊢
  split
  · next hre =>
    rw [if_pos hre] at hgrid
    rw [hgrid, ← Nat.add_mul]
  · next hre =>
    intro total htotal
    obtain ⟨opens, hopens, hle, hnext⟩ := hpace (by simpa using hre) total htotal
    exact copyResumeBase_fst_eq t.keyframes_pairwise_le hopens hle hnext

theorem GridInv.writeBack {hit : Bool} (h : GridInv t w) (hnum : NumberInv w)
    (hguard : crashKeepsPace t w (.writeBack hit)) (hstep : w.writeBack t hit = some w') :
    GridInv t w' := by
  obtain ⟨f, secs, prev, hsup, ⟨s, arg, next, spawnSecs, onGrid, _, hs, hparams, rfl⟩ |
    ⟨hs, rfl⟩⟩ := World.writeBack_cases hstep
  · intro s' hs' hgrid'
    obtain rfl := Option.some.inj hs'
    intro hpending
    refine ⟨?_, rfl⟩
    cases f with
    | none =>
      -- a crash: the flag stays, and the estimate must land in the segment it numbers
      simp only [World.respawnParams, Prod.mk.injEq] at hparams
      obtain ⟨rfl, rfl, rfl, rfl⟩ := hparams
      have hw := h s hs hgrid'
      have hn := hnum s hs
      rw [hsup] at hw hn
      obtain ⟨rfl, frontier, hle, hlisted⟩ := hn
      exact onGrid_crashResume (hw hpending) hlisted hle
        fun hcopy => hguard hcopy s secs _ hs hgrid' hsup hpending
    | some k =>
      -- a seek: a landing point is on the grid, and without one the flag is cleared
      unfold World.respawnParams at hparams
      simp only at hparams
      split at hparams
      · next eff n hland =>
        simp only [Prod.mk.injEq] at hparams
        obtain ⟨-, rfl, rfl, -⟩ := hparams
        exact gridStart_onGrid hland
      · simp only [Prod.mk.injEq] at hparams
        obtain ⟨-, -, -, rfl⟩ := hparams
        cases hgrid'
  · exact .of_exited rfl

/-- **A step keeps number and time together.** -/
theorem GridInv.step {a : Action} (h : GridInv t w) (hnum : NumberInv w)
    (hguard : crashKeepsPace t w a) (hstep : step t w a = some w') : GridInv t w' := by
  cases a with
  | childWrite =>
    obtain ⟨c, hc, rfl⟩ := World.childWrite_cases hstep
    exact h.frame rfl rfl id
  | childList =>
    obtain ⟨c, hc, rfl⟩ := World.childList_cases hstep
    intro s hs hgrid
    have hw := h s hs hgrid
    rw [hc] at hw
    exact hw
  | childPrune =>
    obtain ⟨c, oldest, listed, hc, -, -, rfl⟩ := World.childPrune_cases hstep
    exact h.frame rfl rfl id
  | childExit success ranHealthily =>
    obtain ⟨⟨c, hc⟩, rfl | rfl⟩ := World.childExit_cases hstep
    all_goals
      intro s hs hgrid hpending
      have hw := h s hs hgrid
      have hn := hnum s hs
      rw [hc] at hw hn
      obtain ⟨honGrid, hsecs⟩ := hw hpending
      rwa [hsecs, hn.1]
  | callSeek k target =>
    obtain ⟨hk, rfl⟩ := World.callSeek_cases hstep
    exact h.frame rfl rfl fun hp => hp.update (by simp [hk]) rfl fun _ => id
  | callBackfill k index =>
    obtain ⟨hk, c, rfl, -⟩ := World.callBackfill_cases hstep
    exact h.frame rfl rfl fun hp => hp.update (by simp [hk]) rfl fun _ => id
  | decideBackfill k hit =>
    obtain ⟨⟨index, first, hk⟩, c, b, rfl, -⟩ := World.decideBackfill_cases hstep
    exact h.frame rfl rfl fun hp => hp.update (by simp [hk]) rfl fun _ => id
  | seekWrite k =>
    obtain ⟨target, b, -, ⟨s, hs, rfl⟩ | ⟨hs, rfl⟩⟩ := World.seekWrite_cases hstep
    · -- from here on the seek is pending
      intro s' _ _
      exact gridAt_of_pending (Or.inl ⟨k, target, b, by simp⟩) _ _ _
    · exact .of_none hs
  | seekSend k =>
    obtain ⟨target, b, -, ⟨hs, rfl⟩ | ⟨-, rfl⟩⟩ := World.seekSend_cases hstep
    · exact .of_exited hs
    · intro s' _ _
      exact gridAt_of_pending (Or.inr ⟨k, by simp⟩) _ _ _
  | seekTimeout k =>
    obtain ⟨target, b, hk, rfl⟩ := World.seekTimeout_cases hstep
    exact h.frame rfl rfl fun hp => hp.update (by simp [hk]) rfl fun _ => id
  | takeCmd =>
    obtain ⟨-, ⟨k, queue, -, rfl⟩ | ⟨queue, -, rfl⟩⟩ := World.takeCmd_cases hstep
    · intro s _ _
      trivial
    · exact .of_exited rfl
  | chargeRestart =>
    obtain ⟨⟨b, hc⟩, ⟨s, restarts, hs, rfl⟩ | ⟨dir, rfl⟩⟩ := World.chargeRestart_cases hstep
    · intro s' hs' hgrid
      obtain rfl := Option.some.inj hs'
      have hw := h s hs hgrid
      rw [hc] at hw
      exact hw
    · exact .of_none rfl
  | backoffElapsed =>
    obtain ⟨hc, rfl⟩ := World.backoffElapsed_cases hstep
    intro s hs hgrid
    have hw := h s hs hgrid
    rw [hc] at hw
    exact hw
  | snapshot =>
    obtain ⟨f, hc, ⟨s, hs, rfl⟩ | ⟨hs, rfl⟩⟩ := World.snapshot_cases hstep
    · intro s' hs' hgrid
      obtain rfl : s = s' := Option.some.inj (hs.symm.trans hs')
      have hw := h s hs hgrid
      rw [hc] at hw
      cases f with
      | none => exact hw
      | some k => trivial
    · exact .of_exited rfl
  | writeBack hit => exact h.writeBack hnum hguard hstep
  | spawn ok =>
    obtain ⟨f, secs, arg, next, hc, ⟨dir, -, rfl, -, rfl⟩ | ⟨hs, rfl⟩ | rfl⟩ :=
      World.spawn_cases hstep
    · intro s hs hgrid hpending
      have hs : w.session = some s := by simpa using hs
      have hw := h s hs hgrid
      have hn := hnum s hs
      rw [hc] at hw hn
      obtain ⟨honGrid, hsecs⟩ := hw fun hp => hpending (hp.answerFor rfl (by simp))
      refine ⟨?_, hsecs⟩
      cases f with
      | none => simpa [hn.2.1] using honGrid
      | some k => simpa [hn.2] using honGrid
    · exact .of_exited rfl
    · intro s hs hgrid hpending
      have hs : w.session = some s := by simpa using hs
      have hw := h s hs hgrid
      have hn := hnum s hs
      rw [hc] at hw hn
      obtain ⟨honGrid, hsecs⟩ := hw fun hp => hpending (hp.answerFor rfl (by simp))
      have hnumber : s.startNumber = next := by cases f <;> exact hn.1
      rwa [hsecs, hnumber]
  | stopRemove =>
    obtain rfl := World.stopRemove_cases hstep
    exact .of_none rfl
  | stopSend =>
    obtain ⟨queue, hq, rfl⟩ := World.stopSend_cases hstep
    refine h.frame rfl rfl ?_
    rintro (hp | ⟨k, hk⟩)
    · exact Or.inl hp
    · refine Or.inr ⟨k, ?_⟩
      rcases hq with rfl | rfl
      · exact hk
      · exact List.mem_append_left _ hk

theorem gridInv_start (t : Title) (hit : Bool) (startSecs : ℕ) :
    GridInv t (World.start t hit startSecs) := by
  intro s hs hgrid
  obtain rfl := Option.some.inj hs
  intro _
  refine ⟨?_, rfl⟩
  cases hland : gridStart t hit startSecs with
  | none => simp [hland] at hgrid
  | some r => exact gridStart_onGrid (by simpa using hland)

theorem gridKept_of_inv (hnum : NumberInv w) (hgrid : GridInv t w) : GridKept t w := by
  intro s c hs hon hc hseek
  have hw := hgrid s hs hon
  have hn := hnum s hs
  rw [hc] at hw hn
  obtain ⟨honGrid, -⟩ := hw fun hp => hseek (Or.inl hp)
  exact ⟨hn.1.symm, hn.1 ▸ honGrid, fun i hi => childSegment_eq honGrid hi⟩

theorem gridInv_of_runs (t : Title) (hit : Bool) (startSecs : ℕ) {w : World}
    (h : Runs (step t) (crashKeepsPace t) (World.start t hit startSecs) w) :
    NumberInv w ∧ GridInv t w :=
  Runs.invariant (P := fun v => NumberInv v ∧ GridInv t v) h
    ⟨numberInv_start t hit startSecs, gridInv_start t hit startSecs⟩
    fun _ _ _ hv hguard hstep => ⟨hv.1.step hstep, hv.2.step hv.1 hguard hstep⟩

/-- **No hole in what is listed**, whatever happens: while a child runs the listed segments are
consecutive and end before the one it cuts next, which is not before the number of the session. -/
theorem listed_of_runs (t : Title) (hit : Bool) (startSecs : ℕ) {w : World}
    (h : Runs (step t) anyStep (World.start t hit startSecs) w) {s : Session} {c : Child}
    (hs : w.session = some s) (hc : w.supervisor = .running c) :
    s.startNumber = c.startNumber ∧ c.startNumber ≤ c.next ∧ ListedTo w.dir.listed c.next := by
  have hnum : NumberInv w := h.invariant (numberInv_start t hit startSecs)
    fun _ _ _ hv _ hstep => hv.step hstep
  have hat := hnum s hs
  rwa [hc] at hat

/-- **A session that encodes anew keeps number and time together along every run.** -/
theorem gridKept_of_reencode (t : Title) (hre : t.plan.reencodesVideo = true) (hit : Bool)
    (startSecs : ℕ) {w : World}
    (h : Runs (step t) anyStep (World.start t hit startSecs) w) : GridKept t w := by
  have hrun : Runs (step t) (crashKeepsPace t) (World.start t hit startSecs) w := by
    refine h.mono fun v a _ => ?_
    cases a <;> first | trivial | exact fun hcopy => absurd (hre.symm.trans hcopy) (by decide)
  exact gridKept_of_inv (gridInv_of_runs t hit startSecs hrun).1
    (gridInv_of_runs t hit startSecs hrun).2

end grid

/-! ### Even and sparse keyframes -/

/-- A copy of a title whose keyframes are ten seconds apart. -/
def sparseCopy : Title where
  plan := .transcode .copy
  live := false
  durationSecs := some 40
  keyframes := [0, 10, 20, 30]
  ascending := by decide

theorem listed_of_runs_sparse :
    ∃ w, Runs (step sparseCopy) anyStep (World.start sparseCopy false 0) w ∧
      ListedTo w.dir.listed 2 := by
  have hexec : ∃ w, exec (step sparseCopy) (World.start sparseCopy false 0)
      [.childList, .childList] = some w ∧
      ∃ s, w.session = some s ∧ w.supervisor = .running ⟨0, 0, 2⟩ := ⟨_, rfl, _, rfl, rfl⟩
  obtain ⟨w, hrun, s, hs, hc⟩ := exists_runs_of_exec hexec
  exact ⟨w, hrun, (listed_of_runs sparseCopy false 0 hrun hs hc).2.2⟩

def encodedCopy : Title := { sparseCopy with plan := .transcode .encodeH264 }

theorem gridKept_reencoded :
    ∃ w, Runs (step encodedCopy) anyStep (World.start encodedCopy false 0) w ∧
      w.supervisor = .running ⟨4, 2, 2⟩ ∧ GridKept encodedCopy w := by
  have hexec : ∃ w, exec (step encodedCopy) (World.start encodedCopy false 0)
      [.childList, .childList, .childExit false false, .chargeRestart, .backoffElapsed, .snapshot,
        .writeBack false, .spawn true] = some w ∧ w.supervisor = .running ⟨4, 2, 2⟩ :=
    ⟨_, rfl, rfl⟩
  obtain ⟨w, hrun, hc⟩ := exists_runs_of_exec hexec
  exact ⟨w, hrun, hc, gridKept_of_reencode encodedCopy rfl false 0 hrun⟩

end EmeraldExchange.Transcoder
