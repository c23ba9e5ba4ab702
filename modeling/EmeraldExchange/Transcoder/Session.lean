import EmeraldExchange.Transcoder.VodManifest

/-!
# What a transcoder session computes

The pure functions of `crates/transcoder/src/session.rs`: where a start or a seek lands
on the native playlist's absolute grid, where a crash respawn resumes, and what a
backfill asks for.

The title a session plays is `Title`. The keyframe probe sorts
and deduplicates what it reads, so a title's keyframes carry the proof that they ascend;
whether they are in the cache at the moment they are wanted is not the title's to say,
and every function that loads them takes the outcome `hit` of the lookup.

## The round trip of a resume point

A session stores its resume point as a whole number of seconds, rounded *up*, and the
playlist recomputes the point from that number.
`copyResumeBase_storedSecs` says that nothing is lost.
-/

namespace EmeraldExchange.Transcoder

/-! ### The title -/

/-- What is done with the video stream (`plan.rs`). -/
inductive VideoOp
  | copy
  | copyDolbyVision
  | encodeH264
  | encodeDolbyVision
  deriving DecidableEq

/-- The plan of a session, as far as the grid depends on it. -/
inductive TranscodePlan
  | directPlay
  | transcode (video : VideoOp)
  deriving DecidableEq

/-- Whether the plan encodes video anew, and so can force a keyframe where it wants one. -/
def TranscodePlan.reencodesVideo : TranscodePlan → Bool
  | .transcode .encodeH264 | .transcode .encodeDolbyVision => true
  | _ => false

/-- **The title a session plays.** -/
structure Title where
  plan : TranscodePlan
  /-- A live channel keeps a sliding window of segments, anything else keeps them all. -/
  live : Bool
  durationSecs : Option ℤ
  /-- What the keyframe probe of the file gives. -/
  keyframes : List ℚ
  ascending : keyframes.Pairwise (· < ·)

namespace Title

variable (t : Title)

/-- A lookup in the keyframe cache, which may hit or miss. An empty list counts as a
miss. -/
def loadKeyframes (hit : Bool) : Option (List ℚ) :=
  if hit && !t.keyframes.isEmpty then some t.keyframes else none

theorem keyframes_pairwise_le : t.keyframes.Pairwise (· ≤ ·) :=
  t.ascending.imp fun h => h.le

theorem eq_keyframes_of_loadKeyframes {hit : Bool} {kf : List ℚ}
    (h : t.loadKeyframes hit = some kf) : kf = t.keyframes := by
  unfold loadKeyframes at h
  split at h
  · exact (Option.some.inj h).symm
  · cases h

end Title

/-! ### Landing on the grid -/

/-- The whole second stored for a copy that begins at `base`. -/
def storedSecs (base : ℚ) : ℕ := ⌈base⌉₊

/-- **Where playback from `startSecs` begins on the absolute grid**: the seconds to spawn
at and the number of the first segment, or `none` where there is no grid. -/
def gridStart (t : Title) (hit : Bool) (startSecs : ℕ) : Option (ℕ × ℕ) :=
  if startSecs = 0 then some (0, 0)
  else if t.plan.reencodesVideo then
    let n := startSecs / hlsSegmentSecs
    some (n * hlsSegmentSecs, n)
  else
    match t.durationSecs.filter (0 < ·), t.loadKeyframes hit with
    | some total, some kf =>
      let resume := copyResumeBase kf total startSecs
      some (storedSecs resume.2, resume.1)
    | _, _ => none

/-- The seconds a child is spawned at for the target of a seek: those of the grid, or the
target itself where there is no grid. -/
def spawnTarget (t : Title) (hit : Bool) (target : ℕ) : ℕ :=
  ((gridStart t hit target).map Prod.fst).getD target

/-! ### Resuming after a crash -/

/-- The estimate of the position a crashed child had reached. -/
def crashResumeSecs (spawnSecs prevNumber nextNumber : ℕ) : ℕ :=
  spawnSecs + (nextNumber - prevNumber) * hlsSegmentSecs

/-- Where a crash respawn resumes, from the segments `index.m3u8` lists: the argument of
`-start_number` and the number of the first new segment. -/
def crashResume (listed : List ℕ) (prevNumber : ℕ) : ℕ × ℕ :=
  match listed with
  | first :: _ => (first, first + listed.length)
  | [] => (prevNumber, prevNumber)

/-- Restarts allowed in a row (`MAX_RESTARTS`). -/
def maxRestarts : ℕ := 3

/-- The restart budget carried into a crash: a child that ran for `HEALTHY_RUN_RESET` or
longer starts a fresh one. -/
def effectiveRestartCount (prev : ℕ) (ranHealthily : Bool) : ℕ :=
  if ranHealthily then 0 else prev

/-! ### Backfilling -/

/-- How far past the encoder a request is a wait and not a jump. -/
def backfillAheadSegments : ℕ := 150

/-- Whether the running encoder will never write segment `index`: it lies before the first
segment of the child, or far past the furthest file. -/
def offEncoderRange (first : ℕ) (files : List ℕ) (index : ℕ) : Bool :=
  let frontier := (files.max?.map (max first)).getD first
  !(first ≤ index && index ≤ frontier + backfillAheadSegments)

/-- The second a backfill of segment `index` seeks to. -/
def backfillSecs (t : Title) (hit : Bool) (index : ℕ) : Option ℕ :=
  if t.plan.reencodesVideo then some (index * hlsSegmentSecs)
  else
    match t.durationSecs.filter (0 < ·), t.loadKeyframes hit with
    | some total, some kf => (copySegmentStart kf total index).map fun start => ⌊start⌋₊
    | _, _ => none

/-! ### Number and time on the grid -/

/-- **Number and time agree**: second `secs` lies in segment `number` of the title. -/
def OnGrid (t : Title) (secs number : ℕ) : Prop :=
  if t.plan.reencodesVideo then secs = number * hlsSegmentSecs
  else ∀ total ∈ t.durationSecs, (copyResumeBase t.keyframes total secs).1 = number

theorem gridStart_onGrid {t : Title} {hit : Bool} {startSecs secs number : ℕ}
    (h : gridStart t hit startSecs = some (secs, number)) : OnGrid t secs number := by
  unfold gridStart at h
  unfold OnGrid
  split at h
  · obtain ⟨rfl, rfl⟩ := Prod.mk.inj (Option.some.inj h)
    split
    · rfl
    · intro total _
      rw [copyResumeBase_zero]
  split at h
  · next hre =>
    obtain ⟨rfl, rfl⟩ := Prod.mk.inj (Option.some.inj h)
    rw [if_pos hre]
  · next hre =>
    rw [if_neg hre]
    split at h
    · next d kf hd hkf =>
      obtain ⟨rfl, rfl⟩ := Prod.mk.inj (Option.some.inj h)
      obtain rfl := t.eq_keyframes_of_loadKeyframes hkf
      have hd' : t.durationSecs = some d := (Option.filter_eq_some_iff.mp hd).1
      rintro total htotal
      obtain rfl : d = total := Option.some.inj (hd'.symm.trans htotal)
      rw [storedSecs, copyResumeBase_natCeil t.keyframes_pairwise_le]
    · cases h

theorem gridStart_fixed {t : Title} {hit hit' : Bool} {startSecs secs number : ℕ} {r : ℕ × ℕ}
    (h : gridStart t hit startSecs = some (secs, number)) (h' : gridStart t hit' secs = some r) :
    r.1 = secs := by
  rcases Nat.eq_zero_or_pos secs with rfl | hsecs
  · obtain rfl : (0, 0) = r := by simpa [gridStart] using h'
    rfl
  have hgrid := gridStart_onGrid h
  unfold OnGrid at hgrid
  simp only [gridStart, hsecs.ne', if_false] at h'
  split at h'
  · next hre =>
    rw [if_pos hre] at hgrid
    obtain rfl := Option.some.inj h'
    simp [hgrid, hlsSegmentSecs]
  · next hre =>
    rw [gridStart, if_neg hre] at h
    split at h
    · obtain ⟨rfl, -⟩ := Prod.mk.inj (Option.some.inj h)
      exact absurd hsecs (lt_irrefl 0)
    split at h
    · next d kf hd hkf =>
      obtain ⟨rfl, -⟩ := Prod.mk.inj (Option.some.inj h)
      obtain rfl := t.eq_keyframes_of_loadKeyframes hkf
      rw [hd] at h'
      split at h'
      · next d' kf' hd' hkf' =>
        obtain rfl := Option.some.inj hd'
        obtain rfl := t.eq_keyframes_of_loadKeyframes hkf'
        obtain rfl := Option.some.inj h'
        simp only [storedSecs, copyResumeBase_natCeil t.keyframes_pairwise_le]
      · cases h'
    · cases h

theorem spawnTarget_idem (t : Title) (hit hit' : Bool) (target : ℕ) :
    ∃ hit'', spawnTarget t hit' (spawnTarget t hit target) = spawnTarget t hit'' target := by
  cases hgrid : gridStart t hit target with
  | none => exact ⟨hit', by simp [spawnTarget, hgrid]⟩
  | some r =>
    obtain ⟨secs, number⟩ := r
    have hsecs : spawnTarget t hit target = secs := by simp [spawnTarget, hgrid]
    refine ⟨hit, ?_⟩
    rw [hsecs]
    cases hgrid' : gridStart t hit' secs with
    | none => simp [spawnTarget, hgrid']
    | some r' => simpa [spawnTarget, hgrid'] using gridStart_fixed hgrid hgrid'

/-- **A session's resume point survives being stored.** The number of seconds stored for
the base of a resume point resumes at the same segment and the same base, and the playlist
made from it is the playlist of the start that was asked for; and it is what a session of
a copy stores. -/
theorem copyResumeBase_storedSecs {kf : List ℚ} (hkf : kf.Pairwise (· ≤ ·)) {total : ℚ}
    {start i : ℕ} {base : ℚ} (h : copyResumeBase kf total start = (i, base)) :
    copyResumeBase kf total (storedSecs base) = (i, base) ∧
      (∀ fmp4, synthesizeCopy kf total (storedSecs base) fmp4 =
        synthesizeCopy kf total start fmp4) ∧
      ∀ t : Title, t.keyframes = kf → kf ≠ [] → t.plan.reencodesVideo = false →
        ∀ d, t.durationSecs = some d → 0 < d → total = d →
          gridStart t true start = some (storedSecs base, i) := by
  have hfix : copyResumeBase kf total (storedSecs base) = copyResumeBase kf total start := by
    have hceil := copyResumeBase_natCeil hkf total start
    rwa [h] at hceil ⊢
  refine ⟨hfix.trans h, fun fmp4 => synthesizeCopy_congr hfix fmp4, ?_⟩
  rintro t rfl hne hcopy d hd hpos rfl
  unfold gridStart
  split
  · next hzero =>
    subst hzero
    rw [copyResumeBase_zero] at h
    obtain ⟨rfl, rfl⟩ := Prod.mk.inj h
    simp [storedSecs]
  · have hd' : t.durationSecs.filter (0 < ·) = some d := by simp [hd, hpos]
    have hload : t.loadKeyframes true = some t.keyframes := by simp [Title.loadKeyframes, hne]
    simp only [hcopy, Bool.false_eq_true, if_false, hd', hload, h]

/-- A resume into the second segment of a title cut at a half second. -/
theorem copyResumeBase_storedSecs_half :
    copyResumeBase [0, 9 / 2, 9] 12 (storedSecs (9 / 2)) = (1, 9 / 2) :=
  (copyResumeBase_storedSecs (by decide +kernel)
    (by decide +kernel : copyResumeBase [0, 9 / 2, 9] 12 5 = (1, 9 / 2))).1

end EmeraldExchange.Transcoder
