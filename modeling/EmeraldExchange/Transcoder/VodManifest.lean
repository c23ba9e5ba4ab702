import Mathlib.Algebra.Order.Floor.Semiring
import Mathlib.Data.Rat.Floor
import Mathlib.Data.List.Infix
import Mathlib.Tactic.Linarith
import Mathlib.Tactic.Ring

/-!
# The segment grid of a copy-remux title

The model of `crates/transcoder/src/vod_manifest.rs`. A copy-remux cannot force a keyframe, so its
segments are cut at the keyframes of the source: a running boundary starts one segment length after
the base and moves by one segment length *at each cut*, never catching up with the cut. Everything
here folds that rule over the keyframes.

* `copyCutPoints` – the cuts after a base;
* `copyResumeBase` – the number and the time of the segment at a requested start;
* `copySegmentStart` – where the grid of the whole title opens a numbered segment;
* `synthesizeCopy` – the playlist of a resumed session, folded again *from the resume point*;
* `synthesize` – the playlist of a session that is encoded.

Times are exact rationals, and a playlist is the list of its lines.

`copyCutPoints_split` says what the fold over the whole title does after the resume point: it goes
on with the boundary `2 * (n + 1)`, where `n` is the number of the resumed segment. The playlist
goes on with `base + 2` instead. The base is never before `2 * n`, so the playlist's boundary is
never the earlier of the two, and their difference is what `MergesFrom` watches.
-/

namespace EmeraldExchange.Transcoder

/-- Seconds of media in one segment (`HLS_SEGMENT_SECS` of `args.rs`). -/
def hlsSegmentSecs : ℕ := 2

/-- The largest value of a `u64`, where the casts `as u64` of a larger time stop. -/
def u64Max : ℕ := 18446744073709551615

/-! ### The cuts -/

/-- The loop of `copy_cut_points`, the running `boundary` (`end` in the source)
being its accumulator. -/
def copyCutLoop (base totalAbs hlsTime : ℚ) : ℚ → List ℚ → List ℚ
  | _, [] => []
  | boundary, p :: ps =>
    if p ≤ base then copyCutLoop base totalAbs hlsTime boundary ps
    else if totalAbs ≤ p then []
    else if boundary ≤ p then p :: copyCutLoop base totalAbs hlsTime (boundary + hlsTime) ps
    else copyCutLoop base totalAbs hlsTime boundary ps

/-- **The cut points** of a copy that begins at `base`. -/
def copyCutPoints (keyframes : List ℚ) (base totalAbs hlsTime : ℚ) : List ℚ :=
  copyCutLoop base totalAbs hlsTime (base + hlsTime) keyframes

/-- The loop of `copy_resume_base` over the enumerated cuts: the segment and the
base found so far are kept until a cut lies after the start. -/
def resumeLoop (start : ℚ) : ℕ → ℕ × ℚ → List ℚ → ℕ × ℚ
  | _, found, [] => found
  | offset, found, cut :: cuts =>
    if cut ≤ start then resumeLoop start (offset + 1) (offset + 1, cut) cuts else found

/-- **The resume point** of a requested start: the last segment of the whole title
that opens at or before it, and the time it opens at. -/
def copyResumeBase (keyframes : List ℚ) (totalDurationSecs : ℚ) (startSecs : ℕ) : ℕ × ℚ :=
  resumeLoop startSecs 0 (0, 0) (copyCutPoints keyframes 0 totalDurationSecs hlsSegmentSecs)

/-- **Where segment `index` of the whole title opens**, if there is such a segment. -/
def copySegmentStart (keyframes : List ℚ) (totalDurationSecs : ℚ) (index : ℕ) : Option ℚ :=
  if index = 0 then some 0
  else (copyCutPoints keyframes 0 totalDurationSecs hlsSegmentSecs)[index - 1]?

/-! ### The playlist -/

/-- The lines of a playlist, each with the value it carries. -/
inductive Line
  | extm3u
  | version (v : ℕ)
  | targetDuration (secs : ℕ)
  | mediaSequence (n : ℕ)
  | playlistTypeVod
  | start (timeOffset : ℚ)
  | mapInit
  | discontinuity
  | extinf (dur : ℚ)
  | seg (index : ℕ) (fmp4 : Bool)
  | endlist
  deriving DecidableEq

/-- The differences of consecutive cuts, from `prev` on. -/
def cutDurs : ℚ → List ℚ → List ℚ
  | _, [] => []
  | prev, c :: cs => (c - prev) :: cutDurs c cs

/-- The last cut, or `prev` where there is none. -/
def lastCut : ℚ → List ℚ → ℚ
  | prev, [] => prev
  | _, c :: cs => lastCut c cs

/-- The shortest final segment that is listed: ffmpeg would not write one that opens
within a millisecond of the end. -/
def minTail : ℚ := 1 / 1000

/-- The segment durations of the playlist: the grid of the whole title up to `base`,
then the fold that starts again there, then what is left of the title. -/
def copyDurs (keyframes : List ℚ) (total : ℚ) (startIdx : ℕ) (base : ℚ) : List ℚ :=
  let fullCuts := copyCutPoints keyframes 0 total hlsSegmentSecs
  let cuts := copyCutPoints keyframes base total hlsSegmentSecs
  let tail := total - lastCut base cuts
  cutDurs 0 (fullCuts.take startIdx) ++ cutDurs base cuts ++
    (if minTail < tail then [tail] else [])

/-- The `EXTINF` and name lines of the segments, numbered from `i` on. -/
def segLines (fmp4 : Bool) : ℕ → List ℚ → List Line
  | _, [] => []
  | i, d :: ds => .extinf d :: .seg i fmp4 :: segLines fmp4 (i + 1) ds

def headLines (fmp4 : Bool) (targetDur startIdx : ℕ) (base : ℚ) : List Line :=
  [.extm3u, .version (if fmp4 then 7 else 3), .targetDuration targetDur, .mediaSequence 0,
    .playlistTypeVod] ++
  (if 0 < startIdx then [.start base] else []) ++
  (if fmp4 then [.mapInit] else [])

/-- The segment durations of an encoded title: `count` segments, of which the last
carries what the others leave. -/
def encodeDurs (total : ℚ) (count : ℕ) : List ℚ :=
  (List.range count).map fun i =>
    if i + 1 = count then total - hlsSegmentSecs * ((count - 1 : ℕ) : ℚ) else hlsSegmentSecs

/-- **The complete playlist of an encoded session** that starts at `startSecs`: the
encoder forces its keyframes, so the grid is the multiples of the segment length. The
start announced is kept a millisecond before the end. -/
def synthesize (totalDurationSecs : ℚ) (startSecs : ℕ) (fmp4 : Bool) : Option (List Line) :=
  if totalDurationSecs ≤ 0 then none
  else
    let count := min ⌈totalDurationSecs / hlsSegmentSecs⌉₊ u64Max
    if count = 0 then none
    else
      let off := min (startSecs : ℚ) (max (totalDurationSecs - 1 / 1000) 0)
      some (headLines fmp4 hlsSegmentSecs startSecs off ++
        segLines fmp4 0 (encodeDurs totalDurationSecs count) ++ [.endlist])

/-- **The complete playlist of a copy-remux session** that starts at `startSecs`. -/
def synthesizeCopy (keyframes : List ℚ) (totalDurationSecs : ℚ) (startSecs : ℕ) (fmp4 : Bool) :
    Option (List Line) :=
  if totalDurationSecs ≤ 0 ∨ keyframes = [] then none
  else
    let (startIdx, base) := copyResumeBase keyframes totalDurationSecs startSecs
    if totalDurationSecs - base ≤ 0 then none
    else
      let durs := copyDurs keyframes totalDurationSecs startIdx base
      if durs = [] then none
      else
        let targetDur := min (max 1 ⌈durs.foldl max 0⌉₊) u64Max
        some (headLines fmp4 targetDur startIdx base ++ segLines fmp4 0 durs ++ [.endlist])

/-- What a player does with the lines: the clock stands at `clock`, the last `EXTINF`
read was `dur`, and each segment it passes moves the clock by its duration. -/
def playFrom (i : ℕ) : ℚ → ℚ → List Line → Option ℚ
  | _, _, [] => none
  | clock, _, .extinf d :: ls => playFrom i clock d ls
  | clock, dur, .seg j _ :: ls => if j = i then some clock else playFrom i (clock + dur) dur ls
  | clock, dur, _ :: ls => playFrom i clock dur ls

/-- **The playback time at which segment `i` starts**, where the playlist lists it. -/
def playbackStart (playlist : List Line) (i : ℕ) : Option ℚ := playFrom i 0 0 playlist

/-! ### What the loop of the cuts does -/

section loop

variable {base total hls boundary p : ℚ} {ps : List ℚ}

@[simp] theorem copyCutLoop_nil : copyCutLoop base total hls boundary [] = [] := rfl

theorem copyCutLoop_cons : copyCutLoop base total hls boundary (p :: ps) =
    if p ≤ base then copyCutLoop base total hls boundary ps
    else if total ≤ p then []
    else if boundary ≤ p then p :: copyCutLoop base total hls (boundary + hls) ps
    else copyCutLoop base total hls boundary ps := rfl

theorem copyCutLoop_skip (h : p ≤ base) :
    copyCutLoop base total hls boundary (p :: ps) = copyCutLoop base total hls boundary ps := by
  rw [copyCutLoop_cons, if_pos h]

theorem copyCutLoop_stop (hb : base < p) (h : total ≤ p) :
    copyCutLoop base total hls boundary (p :: ps) = [] := by
  rw [copyCutLoop_cons, if_neg (not_le.mpr hb), if_pos h]

theorem copyCutLoop_cut (hb : base < p) (ht : p < total) (h : boundary ≤ p) :
    copyCutLoop base total hls boundary (p :: ps) =
      p :: copyCutLoop base total hls (boundary + hls) ps := by
  rw [copyCutLoop_cons, if_neg (not_le.mpr hb), if_neg (not_le.mpr ht), if_pos h]

theorem copyCutLoop_pass (hb : base < p) (ht : p < total) (h : p < boundary) :
    copyCutLoop base total hls boundary (p :: ps) = copyCutLoop base total hls boundary ps := by
  rw [copyCutLoop_cons, if_neg (not_le.mpr hb), if_neg (not_le.mpr ht), if_neg (not_le.mpr h)]

theorem copyCutLoop_sublist (boundary : ℚ) (ps : List ℚ) :
    (copyCutLoop base total hls boundary ps).Sublist ps := by
  fun_induction copyCutLoop base total hls boundary ps with
  | case1 => exact List.Sublist.refl _
  | case2 _ _ _ _ ih => exact ih.cons _
  | case3 => exact List.nil_sublist _
  | case4 _ _ _ _ _ _ ih => exact ih.cons_cons _
  | case5 _ _ _ _ _ _ ih => exact ih.cons _

theorem copyCutLoop_pairwise (h : ps.Pairwise (· ≤ ·)) (boundary : ℚ) :
    (copyCutLoop base total hls boundary ps).Pairwise (· ≤ ·) :=
  h.sublist (copyCutLoop_sublist boundary ps)

theorem base_lt_of_mem_copyCutLoop {boundary c : ℚ}
    (h : c ∈ copyCutLoop base total hls boundary ps) : base < c := by
  fun_induction copyCutLoop base total hls boundary ps with
  | case1 => simp at h
  | case2 _ _ _ _ ih => exact ih h
  | case3 => simp at h
  | case4 _ p _ hb _ _ ih =>
    rcases List.mem_cons.mp h with rfl | h
    · exact not_le.mp hb
    · exact ih h
  | case5 _ _ _ _ _ _ ih => exact ih h

theorem copyCutLoop_eq_nil_of_total_le (h : ∀ p ∈ ps, total ≤ p) :
    copyCutLoop base total hls boundary ps = [] := by
  induction ps with
  | nil => rfl
  | cons p ps ih =>
    rcases le_or_gt p base with hp | hp
    · rw [copyCutLoop_skip hp]
      exact ih fun q hq => h q (List.mem_cons_of_mem _ hq)
    · exact copyCutLoop_stop hp (h p List.mem_cons_self)

theorem copyCutLoop_congr_base {base' : ℚ} (h : ∀ p ∈ ps, base < p) (h' : ∀ p ∈ ps, base' < p)
    (boundary : ℚ) :
    copyCutLoop base total hls boundary ps = copyCutLoop base' total hls boundary ps := by
  induction ps generalizing boundary with
  | nil => rfl
  | cons p ps ih =>
    have ih := ih (fun q hq => h q (List.mem_cons_of_mem _ hq))
      (fun q hq => h' q (List.mem_cons_of_mem _ hq))
    have hp := h p List.mem_cons_self
    have hp' := h' p List.mem_cons_self
    rcases le_or_gt total p with ht | ht
    · rw [copyCutLoop_stop hp ht, copyCutLoop_stop hp' ht]
    rcases le_or_gt boundary p with hc | hc
    · rw [copyCutLoop_cut hp ht hc, copyCutLoop_cut hp' ht hc, ih]
    · rw [copyCutLoop_pass hp ht hc, copyCutLoop_pass hp' ht hc, ih]

theorem copyCutLoop_eq_nil_iff (h : ps.Pairwise (· ≤ ·)) (hb : base < boundary) :
    copyCutLoop base total hls boundary ps = [] ↔ ∀ r ∈ ps, boundary ≤ r → total ≤ r := by
  induction ps with
  | nil => simp
  | cons p ps ih =>
    obtain ⟨hp, hps⟩ := List.pairwise_cons.mp h
    rcases le_or_gt p base with hle | hlt
    · rw [copyCutLoop_skip hle, ih hps]
      simp [not_le.mpr (hle.trans_lt hb)]
    rcases le_or_gt total p with ht | ht
    · rw [copyCutLoop_stop hlt ht]
      simpa [ht] using fun r hr _ => ht.trans (hp r hr)
    rcases le_or_gt boundary p with hc | hc
    · rw [copyCutLoop_cut hlt ht hc]
      simp [hc, ht]
    · rw [copyCutLoop_pass hlt ht hc, ih hps]
      simp [hc]

end loop

/-! ### The resume point -/

section resume

variable {cuts : List ℚ} {start start' base : ℚ} {n : ℕ}

theorem resumeLoop_cons {found : ℕ × ℚ} {cut : ℚ} : resumeLoop start n found (cut :: cuts) =
    if cut ≤ start then resumeLoop start (n + 1) (n + 1, cut) cuts else found := rfl

theorem le_resumeLoop_snd (hcuts : cuts.Pairwise (· ≤ ·)) (hbase : ∀ c ∈ cuts, base ≤ c)
    (n : ℕ) : base ≤ (resumeLoop start n (n, base) cuts).2 := by
  induction cuts generalizing n base with
  | nil => exact le_rfl
  | cons c cs ih =>
    obtain ⟨hc, hcs⟩ := List.pairwise_cons.mp hcuts
    rw [resumeLoop_cons]
    split
    · exact (hbase c List.mem_cons_self).trans (ih hcs hc (n + 1))
    · exact le_rfl

theorem resumeLoop_snd_le (hbase : base ≤ start) (n : ℕ) (cuts : List ℚ) :
    (resumeLoop start n (n, base) cuts).2 ≤ start := by
  induction cuts generalizing n base with
  | nil => exact hbase
  | cons c cs ih =>
    rw [resumeLoop_cons]
    split
    · next hc => exact ih hc (n + 1)
    · exact hbase

/-- **Any start from the base found up to the start asked for finds the same.** -/
theorem resumeLoop_eq_of_mem_Icc (hcuts : cuts.Pairwise (· ≤ ·)) (hbase : ∀ c ∈ cuts, base ≤ c)
    (hlo : (resumeLoop start n (n, base) cuts).2 ≤ start') (hhi : start' ≤ start) :
    resumeLoop start' n (n, base) cuts = resumeLoop start n (n, base) cuts := by
  induction cuts generalizing n base with
  | nil => rfl
  | cons c cs ih =>
    obtain ⟨hc, hcs⟩ := List.pairwise_cons.mp hcuts
    rw [resumeLoop_cons] at hlo
    simp only [resumeLoop_cons]
    split at hlo
    · next hle =>
      -- the loop goes past this cut, so the base found is not before it
      have hcut : c ≤ start' := (le_resumeLoop_snd hcs hc (n + 1)).trans hlo
      rw [if_pos hle, if_pos hcut, ih hcs hc hlo]
    · next hgt => rw [if_neg hgt, if_neg fun h => hgt (h.trans hhi)]

/-- The segment that is found is the one whose opening the start has reached and whose
successor's it has not. -/
theorem resumeLoop_fst_eq {m : ℕ} {opens : ℚ} (hcuts : cuts.Pairwise (· ≤ ·))
    (hopens : (base :: cuts)[m]? = some opens) (hle : opens ≤ start)
    (hnext : ∀ next, (base :: cuts)[m + 1]? = some next → start < next) (n : ℕ) :
    (resumeLoop start n (n, base) cuts).1 = n + m := by
  induction cuts generalizing n base m with
  | nil =>
    cases m with
    | zero => rfl
    | succ m => simp at hopens
  | cons c cs ih =>
    obtain ⟨hc, hcs⟩ := List.pairwise_cons.mp hcuts
    cases m with
    | zero => rw [resumeLoop_cons, if_neg (not_le.mpr (hnext c rfl))]; rfl
    | succ m =>
      rw [List.getElem?_cons_succ] at hopens
      have hreached : c ≤ start := by
        rcases List.mem_cons.mp (List.mem_of_getElem? hopens) with rfl | hmem
        · exact hle
        · exact (hc _ hmem).trans hle
      rw [resumeLoop_cons, if_pos hreached, ih hcs hopens hnext (n + 1)]
      omega

end resume

section resumeBase

variable {keyframes : List ℚ} {total : ℚ} {start : ℕ}

theorem copySegmentStart_eq (keyframes : List ℚ) (total : ℚ) (i : ℕ) :
    copySegmentStart keyframes total i =
      (0 :: copyCutPoints keyframes 0 total hlsSegmentSecs)[i]? := by
  cases i with
  | zero => rfl
  | succ i => simp [copySegmentStart]

theorem copyResumeBase_snd_nonneg (hkf : keyframes.Pairwise (· ≤ ·)) (total : ℚ) (start : ℕ) :
    0 ≤ (copyResumeBase keyframes total start).2 :=
  le_resumeLoop_snd (copyCutLoop_pairwise hkf _)
    (fun _ hc => (base_lt_of_mem_copyCutLoop hc).le) 0

theorem copyResumeBase_snd_le (keyframes : List ℚ) (total : ℚ) (start : ℕ) :
    (copyResumeBase keyframes total start).2 ≤ start :=
  resumeLoop_snd_le (Nat.cast_nonneg start) 0 _

/-- **The resume point of the next whole second is the same resume point.** -/
theorem copyResumeBase_natCeil (hkf : keyframes.Pairwise (· ≤ ·)) (total : ℚ) (start : ℕ) :
    copyResumeBase keyframes total ⌈(copyResumeBase keyframes total start).2⌉₊ =
      copyResumeBase keyframes total start := by
  have hceil : ⌈(copyResumeBase keyframes total start).2⌉₊ ≤ start :=
    Nat.ceil_le.mpr (copyResumeBase_snd_le keyframes total start)
  exact resumeLoop_eq_of_mem_Icc (copyCutLoop_pairwise hkf _)
    (fun _ hc => (base_lt_of_mem_copyCutLoop hc).le) (Nat.le_ceil _) (by exact_mod_cast hceil)

/-- A start resumes in the segment whose opening it has reached and whose successor's it
has not. -/
theorem copyResumeBase_fst_eq (hkf : keyframes.Pairwise (· ≤ ·)) {number : ℕ} {opens : ℚ}
    (hopens : copySegmentStart keyframes total number = some opens) (hle : opens ≤ start)
    (hnext : ∀ next, copySegmentStart keyframes total (number + 1) = some next →
      (start : ℚ) < next) :
    (copyResumeBase keyframes total start).1 = number := by
  simp only [copySegmentStart_eq] at hopens hnext
  exact (resumeLoop_fst_eq (copyCutLoop_pairwise hkf _) hopens hle hnext 0).trans (zero_add _)

theorem copyResumeBase_zero (keyframes : List ℚ) (total : ℚ) :
    copyResumeBase keyframes total 0 = (0, 0) := by
  unfold copyResumeBase
  cases hcuts : copyCutPoints keyframes 0 total hlsSegmentSecs with
  | nil => rfl
  | cons c cs =>
    have hc : c ∈ copyCutPoints keyframes 0 total hlsSegmentSecs := hcuts ▸ List.mem_cons_self
    have hpos : ¬ c ≤ ((0 : ℕ) : ℚ) := by
      simpa using base_lt_of_mem_copyCutLoop hc
    rw [resumeLoop_cons, if_neg hpos]

theorem synthesizeCopy_congr {start' : ℕ}
    (h : copyResumeBase keyframes total start' = copyResumeBase keyframes total start)
    (fmp4 : Bool) :
    synthesizeCopy keyframes total start' fmp4 = synthesizeCopy keyframes total start fmp4 := by
  unfold synthesizeCopy
  rw [h]

end resumeBase

/-! ### The fold over the whole title, seen from the resume point -/

section split

variable {total : ℚ} {ps : List ℚ}

@[simp] theorem lastCut_nil (prev : ℚ) : lastCut prev [] = prev := rfl

@[simp] theorem lastCut_cons (prev c : ℚ) (cs : List ℚ) :
    lastCut prev (c :: cs) = lastCut c cs := rfl

/-- **Where a fold over keyframes stands** once it has made `m` cuts, the last of them
(or else `found`) at `base`: its later cuts are those of a fold from `base`, whose
boundary is `m` segment lengths later and at most one segment length after `base`. -/
structure ResumesAt (total base₀ boundary found : ℚ) (ps : List ℚ) (m : ℕ) (base : ℚ) : Prop where
  cuts_eq : copyCutLoop base₀ total 2 boundary ps =
    (copyCutLoop base₀ total 2 boundary ps).take m ++ copyCutLoop base total 2 (boundary + 2 * m) ps
  last_eq : lastCut found ((copyCutLoop base₀ total 2 boundary ps).take m) = base
  found_le : found ≤ base
  boundary_le : boundary + 2 * m ≤ base + 2

theorem ResumesAt.zero {base₀ boundary found : ℚ} (hboundary : boundary ≤ found + 2)
    (h : copyCutLoop base₀ total 2 boundary ps = copyCutLoop found total 2 boundary ps) :
    ResumesAt total base₀ boundary found ps 0 found :=
  ⟨by simpa using h, rfl, le_rfl, by simpa⟩

/-- **The search for the resume point stops where the fold stands.** -/
theorem resumeLoop_resumesAt {start base₀ found boundary : ℚ} (n : ℕ)
    (hps : ps.Pairwise (· ≤ ·)) (hfound : ∀ p ∈ ps, base₀ < p → found ≤ p)
    (hbase : base₀ ≤ found) (hstart : found ≤ start) (hboundary : boundary ≤ found + 2) :
    ∃ m base, resumeLoop start n (n, found) (copyCutLoop base₀ total 2 boundary ps) =
        (n + m, base) ∧ ResumesAt total base₀ boundary found ps m base := by
  induction ps generalizing n found boundary with
  | nil => exact ⟨0, found, rfl, .zero hboundary rfl⟩
  | cons p ps ih =>
    obtain ⟨hp, htail⟩ := List.pairwise_cons.mp hps
    have hfoundTail : ∀ q ∈ ps, base₀ < q → found ≤ q :=
      fun q hq => hfound q (List.mem_cons_of_mem _ hq)
    rcases le_or_gt p base₀ with hle | hlt
    · -- the keyframe is before the base of the fold, hence before the base found
      obtain ⟨m, base, hres, hcuts, hlast, hge, hb⟩ :=
        ih n htail hfoundTail hbase hstart hboundary
      refine ⟨m, base, ?_, ?_, ?_, hge, hb⟩
      · rwa [copyCutLoop_skip hle]
      · rwa [copyCutLoop_skip hle, copyCutLoop_skip (hle.trans (hbase.trans hge))]
      · rwa [copyCutLoop_skip hle]
    have hfp : found ≤ p := hfound p List.mem_cons_self hlt
    rcases le_or_gt total p with ht | ht
    · -- the keyframe is past the end, and so are all after it
      have hall : ∀ q ∈ p :: ps, total ≤ q := by
        intro q hq
        rcases List.mem_cons.mp hq with rfl | hq
        · exact ht
        · exact ht.trans (hp q hq)
      refine ⟨0, found, ?_, .zero hboundary ?_⟩
      · rw [copyCutLoop_eq_nil_of_total_le hall]; rfl
      · rw [copyCutLoop_eq_nil_of_total_le hall, copyCutLoop_eq_nil_of_total_le hall]
    rcases le_or_gt boundary p with hc | hc
    · rcases le_or_gt p start with hpstart | hpstart
      · -- a cut at or before the start: it is the new base found
        have hnext : boundary + 2 ≤ p + 2 := by linarith
        obtain ⟨m, base, hres, hcuts, hlast, hge, hb⟩ :=
          ih (n + 1) htail (fun q hq _ => hp q hq) hlt.le hpstart hnext
        have hmul : boundary + 2 * ((m + 1 : ℕ) : ℚ) = boundary + 2 + 2 * m := by
          push_cast; ring
        refine ⟨m + 1, base, ?_, ?_, ?_, hfp.trans hge, hmul ▸ hb⟩
        · rw [copyCutLoop_cut hlt ht hc, resumeLoop, if_pos hpstart, hres]
          congr 1
          omega
        · rw [hmul, copyCutLoop_skip hge, copyCutLoop_cut hlt ht hc, List.take_succ_cons,
            List.cons_append, ← hcuts]
        · simpa [copyCutLoop_cut hlt ht hc] using hlast
      · -- the first cut after the start ends the search
        have hfp' : found < p := hstart.trans_lt hpstart
        refine ⟨0, found, ?_, .zero hboundary ?_⟩
        · rw [copyCutLoop_cut hlt ht hc, resumeLoop, if_neg (not_le.mpr hpstart)]; rfl
        · rw [copyCutLoop_cut hlt ht hc, copyCutLoop_cut hfp' ht hc, copyCutLoop_congr_base]
          · exact fun q hq => hlt.trans_le (hp q hq)
          · exact fun q hq => hfp'.trans_le (hp q hq)
    · obtain ⟨m, base, hres, hcuts, hlast, hge, hb⟩ :=
        ih n htail hfoundTail hbase hstart hboundary
      refine ⟨m, base, ?_, ?_, ?_, hge, hb⟩
      · rwa [copyCutLoop_pass hlt ht hc]
      · rw [copyCutLoop_pass hlt ht hc]
        rcases le_or_gt p base with hpb | hpb
        · rwa [copyCutLoop_skip hpb]
        · have hm : (0 : ℚ) ≤ 2 * m := by positivity
          rwa [copyCutLoop_pass hpb ht (by linarith)]
      · rwa [copyCutLoop_pass hlt ht hc]

theorem copyCutPoints_zero (keyframes : List ℚ) (total : ℚ) :
    copyCutPoints keyframes 0 total hlsSegmentSecs = copyCutLoop 0 total 2 2 keyframes := by
  simp [copyCutPoints, hlsSegmentSecs]

/-- **The fold over the whole title at the resume point `(n, base)`**: it has made `n`
cuts, the last of them at `base`, and goes on with the boundary `2 * (n + 1)`. -/
theorem copyResumeBase_resumesAt {keyframes : List ℚ} (hkf : keyframes.Pairwise (· ≤ ·)) (total : ℚ)
    (start : ℕ) :
    ResumesAt total 0 2 0 keyframes (copyResumeBase keyframes total start).1
      (copyResumeBase keyframes total start).2 := by
  have hfirst : (2 : ℚ) ≤ 0 + 2 := by norm_num
  have hstart : (0 : ℚ) ≤ start := Nat.cast_nonneg start
  obtain ⟨m, base, hres, hat⟩ :
      ∃ m base, resumeLoop start 0 (0, 0) (copyCutLoop 0 total 2 2 keyframes) = (0 + m, base) ∧
        ResumesAt total 0 2 0 keyframes m base :=
    resumeLoop_resumesAt 0 hkf (fun _ _ h => h.le) le_rfl hstart hfirst
  rw [zero_add] at hres
  rwa [copyResumeBase, copyCutPoints_zero, hres]

end split

/-! ### The starts a playlist announces -/

section starts

variable {total : ℚ} {fmp4 : Bool}

/-- The times at which stretches of the given durations start, the first at `clock`. -/
def startsFrom : ℚ → List ℚ → List ℚ
  | _, [] => []
  | clock, d :: ds => clock :: startsFrom (clock + d) ds

/-- **The starts of the listed segments**, given the first start and the cuts: each cut
closes a segment, and the last segment is listed where enough of the title is left. -/
def listedStarts (total : ℚ) : ℚ → List ℚ → List ℚ
  | prev, [] => if minTail < total - prev then [prev] else []
  | prev, c :: cs => prev :: listedStarts total c cs

theorem listedStarts_nil (prev : ℚ) :
    listedStarts total prev [] = if minTail < total - prev then [prev] else [] := rfl

theorem listedStarts_cons (prev c : ℚ) (cs : List ℚ) :
    listedStarts total prev (c :: cs) = prev :: listedStarts total c cs := rfl

theorem playFrom_segLines (i : ℕ) (durs : List ℚ) (clock dur : ℚ) (j : ℕ) :
    playFrom (j + i) clock dur (segLines fmp4 j durs ++ [.endlist]) =
      (startsFrom clock durs)[i]? := by
  induction durs generalizing i clock dur j with
  | nil => rfl
  | cons d ds ih =>
    simp only [segLines, List.cons_append, playFrom, startsFrom]
    cases i with
    | zero => simp
    | succ i =>
      have hne : j ≠ j + (i + 1) := by omega
      rw [if_neg hne, List.getElem?_cons_succ, ← ih i (clock + d) d (j + 1)]
      congr 1
      omega

theorem playFrom_headLines (i : ℕ) (clock dur : ℚ) (targetDur n : ℕ) (base : ℚ)
    (ls : List Line) :
    playFrom i clock dur (headLines fmp4 targetDur n base ++ ls) = playFrom i clock dur ls := by
  unfold headLines
  by_cases hn : 0 < n <;> cases fmp4 <;> simp [hn, playFrom]

theorem startsFrom_cutDurs (prev : ℚ) (cuts : List ℚ) :
    startsFrom prev (cutDurs prev cuts ++
      (if minTail < total - lastCut prev cuts then [total - lastCut prev cuts] else [])) =
      listedStarts total prev cuts := by
  induction cuts generalizing prev with
  | nil => by_cases h : minTail < total - prev <;> simp [cutDurs, startsFrom, listedStarts, h]
  | cons c cs ih =>
    simp only [cutDurs, List.cons_append, startsFrom, listedStarts, add_sub_cancel]
    exact congrArg (prev :: ·) (ih c)

theorem cutDurs_append (prev : ℚ) (as bs : List ℚ) :
    cutDurs prev (as ++ bs) = cutDurs prev as ++ cutDurs (lastCut prev as) bs := by
  induction as generalizing prev with
  | nil => rfl
  | cons a as ih => simp [cutDurs, ih]

theorem lastCut_append (prev : ℚ) (as bs : List ℚ) :
    lastCut prev (as ++ bs) = lastCut (lastCut prev as) bs := by
  induction as generalizing prev with
  | nil => rfl
  | cons a as ih => simp [ih]

/-- The cuts of the playlist of a session that resumes at `(n, base)`: the grid of the
whole title up to the base, then the fold from the base. -/
def playlistCuts (keyframes : List ℚ) (total : ℚ) (n : ℕ) (base : ℚ) : List ℚ :=
  (copyCutPoints keyframes 0 total hlsSegmentSecs).take n ++
    copyCutPoints keyframes base total hlsSegmentSecs

theorem startsFrom_copyDurs {keyframes : List ℚ} {n : ℕ} {base : ℚ}
    (hlast : lastCut 0 ((copyCutPoints keyframes 0 total hlsSegmentSecs).take n) = base) :
    startsFrom 0 (copyDurs keyframes total n base) =
      listedStarts total 0 (playlistCuts keyframes total n base) := by
  rw [playlistCuts, ← startsFrom_cutDurs, cutDurs_append, lastCut_append, hlast]
  rfl

/-- **What the playlist announces.** Segment `i` starts at the `i`-th listed start. -/
theorem playbackStart_synthesizeCopy {keyframes : List ℚ} (hkf : keyframes.Pairwise (· ≤ ·))
    {start : ℕ} {m : List Line} (h : synthesizeCopy keyframes total start fmp4 = some m) (i : ℕ) :
    playbackStart m i = (listedStarts total 0
      (playlistCuts keyframes total (copyResumeBase keyframes total start).1
        (copyResumeBase keyframes total start).2))[i]? := by
  have hlast := (copyResumeBase_resumesAt hkf total start).last_eq
  rw [← copyCutPoints_zero] at hlast
  simp only [synthesizeCopy] at h
  split at h
  · cases h
  split at h
  · cases h
  split at h
  · cases h
  obtain rfl := Option.some.inj h
  rw [playbackStart, List.append_assoc, playFrom_headLines, ← startsFrom_copyDurs hlast,
    ← playFrom_segLines i _ 0 0 0, zero_add]

end starts

/-! ### When the two folds give the same numbers -/

/-- **Another segment is listed** by a fold whose boundary is `boundary`: a keyframe
before the end has reached the boundary, and the segment it opens is either long
enough to be listed as the last one or closed by a later cut. -/
def Reopens (total boundary : ℚ) : List ℚ → Prop
  | [] => False
  | q :: qs =>
    if q < boundary then Reopens total boundary qs
    else q < total ∧
      (minTail < total - q ∨ ∃ r ∈ qs, boundary + hlsSegmentSecs ≤ r ∧ r < total)

/-- **The fold from the base keeps to the grid of the whole title.** With `k` cuts made
since the base by both folds, the grid's boundary is `2 * (n + k + 1)` and the other one
`base + 2 * (k + 1)`, never the earlier. A keyframe that has reached only the first of the
two is a segment start of the grid that the playlist does not have, and shifts the number
of every segment the playlist lists after it. -/
def MergesFrom (base total : ℚ) (n : ℕ) : ℕ → List ℚ → Prop
  | _, [] => True
  | k, p :: ps =>
    if p ≤ base then MergesFrom base total n k ps
    else if total ≤ p then True
    else if p < 2 * (n + k + 1) then MergesFrom base total n k ps
    else if p < base + 2 * (k + 1) then ¬ Reopens total (base + 2 * (k + 1)) ps
    else MergesFrom base total n (k + 1) ps

instance decidableReopens (total boundary : ℚ) : ∀ qs, Decidable (Reopens total boundary qs)
  | [] => inferInstanceAs (Decidable False)
  | q :: qs =>
    have := decidableReopens total boundary qs
    inferInstanceAs (Decidable (if q < boundary then Reopens total boundary qs
      else q < total ∧
        (minTail < total - q ∨ ∃ r ∈ qs, boundary + hlsSegmentSecs ≤ r ∧ r < total)))

instance decidableMergesFrom (base total : ℚ) (n : ℕ) :
    ∀ k ps, Decidable (MergesFrom base total n k ps)
  | _, [] => inferInstanceAs (Decidable True)
  | k, p :: ps =>
    have := decidableMergesFrom base total n k ps
    have := decidableMergesFrom base total n (k + 1) ps
    inferInstanceAs (Decidable (
      if p ≤ base then MergesFrom base total n k ps
      else if total ≤ p then True
      else if p < 2 * (n + k + 1) then MergesFrom base total n k ps
      else if p < base + 2 * (k + 1) then ¬ Reopens total (base + 2 * (k + 1)) ps
      else MergesFrom base total n (k + 1) ps))

/-- **The condition on the keyframes** under which a session that starts at `startSecs`
numbers its segments as the whole title does. -/
def ResumeMerges (keyframes : List ℚ) (total : ℚ) (startSecs : ℕ) : Prop :=
  MergesFrom (copyResumeBase keyframes total startSecs).2 total
    (copyResumeBase keyframes total startSecs).1 0 keyframes

instance (keyframes : List ℚ) (total : ℚ) (startSecs : ℕ) :
    Decidable (ResumeMerges keyframes total startSecs) :=
  inferInstanceAs (Decidable (MergesFrom _ _ _ _ _))

/-- **Numbers mean the same times**: every segment the playlist of a session lists
starts where the grid of the whole title opens the segment of that number. -/
def NumberingAgrees (keyframes : List ℚ) (total : ℚ) (startSecs : ℕ) (fmp4 : Bool) : Prop :=
  ∀ m, synthesizeCopy keyframes total startSecs fmp4 = some m →
    ∀ i t, playbackStart m i = some t → copySegmentStart keyframes total i = some t

section merge

variable {base total boundary : ℚ} {ps : List ℚ}

theorem reopens_cons {q : ℚ} : Reopens total boundary (q :: ps) =
    if q < boundary then Reopens total boundary ps
    else q < total ∧
      (minTail < total - q ∨ ∃ r ∈ ps, boundary + hlsSegmentSecs ≤ r ∧ r < total) := rfl

theorem not_reopens_of_total_le (h : ∀ q ∈ ps, total ≤ q) : ¬ Reopens total boundary ps := by
  induction ps with
  | nil => exact id
  | cons q qs ih =>
    rw [reopens_cons]
    split
    · exact ih fun r hr => h r (List.mem_cons_of_mem _ hr)
    · exact fun hq => absurd hq.1 (not_lt.mpr (h q List.mem_cons_self))

theorem listedStarts_nil_prefix (prev : ℚ) (cs : List ℚ) :
    listedStarts total prev [] <+: prev :: cs := by
  rw [listedStarts_nil]
  split
  · exact ⟨cs, rfl⟩
  · exact List.nil_prefix

theorem listedStarts_head {q : ℚ} (hq : minTail < total - q) (cuts : List ℚ) :
    ∃ qs, listedStarts total q cuts = q :: qs := by
  cases cuts with
  | nil => exact ⟨[], by rw [listedStarts_nil, if_pos hq]⟩
  | cons c cs => exact ⟨_, rfl⟩

/-- Where a segment is reopened, the listed starts have a second element, at or after
the boundary. -/
theorem listedStarts_of_reopens (hps : ps.Pairwise (· ≤ ·)) (hb : base < boundary)
    (h : Reopens total boundary ps) (prev : ℚ) :
    ∃ q qs, listedStarts total prev (copyCutLoop base total 2 boundary ps) = prev :: q :: qs ∧
      boundary ≤ q := by
  induction ps with
  | nil => exact h.elim
  | cons q qs ih =>
    obtain ⟨hq, hqs⟩ := List.pairwise_cons.mp hps
    rw [reopens_cons] at h
    split at h
    · next hlt =>
      have htotal : q < total := by
        by_contra hge
        exact not_reopens_of_total_le (fun r hr => (not_lt.mp hge).trans (hq r hr)) h
      obtain ⟨q', qs', hlist, hle⟩ := ih hqs h
      refine ⟨q', qs', ?_, hle⟩
      rcases le_or_gt q base with hbase | hbase
      · rwa [copyCutLoop_skip hbase]
      · rwa [copyCutLoop_pass hbase htotal hlt]
    · next hge =>
      obtain ⟨htotal, hrest⟩ := h
      have hcut : boundary ≤ q := not_lt.mp hge
      rw [copyCutLoop_cut (hb.trans_le hcut) htotal hcut, listedStarts_cons]
      have hlisted : ∃ qs', listedStarts total q (copyCutLoop base total 2 (boundary + 2) qs) =
          q :: qs' := by
        rcases hrest with hlong | ⟨r, hr, hrb, hrt⟩
        · exact listedStarts_head hlong _
        · -- a later cut closes the segment
          have hne : copyCutLoop base total 2 (boundary + 2) qs ≠ [] := by
            rw [Ne, copyCutLoop_eq_nil_iff hqs (by linarith)]
            exact fun hall => absurd (hall r hr (by simpa [hlsSegmentSecs] using hrb))
              (not_le.mpr hrt)
          obtain ⟨c, cs, hcs⟩ := List.exists_cons_of_ne_nil hne
          exact ⟨_, by rw [hcs, listedStarts_cons]⟩
      obtain ⟨qs', hqs'⟩ := hlisted
      exact ⟨q, qs', by rw [hqs'], hcut⟩

theorem listedStarts_of_not_reopens (hps : ps.Pairwise (· ≤ ·)) (hb : base < boundary)
    (h : ¬ Reopens total boundary ps) (prev : ℚ) :
    listedStarts total prev (copyCutLoop base total 2 boundary ps) <+: [prev] := by
  induction ps with
  | nil => exact listedStarts_nil_prefix prev []
  | cons q qs ih =>
    obtain ⟨hq, hqs⟩ := List.pairwise_cons.mp hps
    rcases le_or_gt q base with hbase | hbase
    · rw [reopens_cons, if_pos (hbase.trans_lt hb)] at h
      rw [copyCutLoop_skip hbase]
      exact ih hqs h
    rcases le_or_gt total q with htotal | htotal
    · rw [copyCutLoop_stop hbase htotal]
      exact listedStarts_nil_prefix prev []
    rcases le_or_gt boundary q with hcut | hcut
    · -- the segment opened here is neither long enough nor closed, so it is not listed
      rw [reopens_cons, if_neg (not_lt.mpr hcut)] at h
      push Not at h
      obtain ⟨hshort, hlater⟩ := h htotal
      have hend : copyCutLoop base total 2 (boundary + 2) qs = [] := by
        rw [copyCutLoop_eq_nil_iff hqs (by linarith)]
        exact fun r hr hrb => hlater r hr (by simpa [hlsSegmentSecs] using hrb)
      rw [copyCutLoop_cut hbase htotal hcut, hend]
      simp [listedStarts_cons, listedStarts_nil, not_lt.mpr hshort]
    · rw [reopens_cons, if_pos hcut] at h
      rw [copyCutLoop_pass hbase htotal hcut]
      exact ih hqs h

/-- **The induction over the keyframes**: with `k` cuts made by both folds since the base,
the listed starts of the re-seeded fold are a prefix of those of the grid exactly when
the two folds merge from here. -/
theorem listedStarts_prefix_iff {n : ℕ} (hps : ps.Pairwise (· ≤ ·)) (hn : 2 * (n : ℚ) ≤ base)
    (k : ℕ) (prev : ℚ) :
    listedStarts total prev (copyCutLoop base total 2 (base + 2 * (k + 1)) ps) <+:
        prev :: copyCutLoop base total 2 (2 * (n + k + 1)) ps ↔
      MergesFrom base total n k ps := by
  induction ps generalizing k prev with
  | nil => simpa [MergesFrom] using listedStarts_nil_prefix prev []
  | cons p ps ih =>
    obtain ⟨hp, htail⟩ := List.pairwise_cons.mp hps
    have hk : (0 : ℚ) ≤ k := Nat.cast_nonneg k
    rw [MergesFrom]
    rcases le_or_gt p base with hbase | hbase
    · rw [if_pos hbase, copyCutLoop_skip hbase, copyCutLoop_skip hbase, ih htail k prev]
    rw [if_neg (not_le.mpr hbase)]
    rcases le_or_gt total p with htotal | htotal
    · rw [if_pos htotal, copyCutLoop_stop hbase htotal, copyCutLoop_stop hbase htotal]
      simpa using listedStarts_nil_prefix prev []
    rw [if_neg (not_le.mpr htotal)]
    rcases lt_or_ge p (2 * (n + k + 1)) with hgrid | hgrid
    · -- neither fold cuts here
      rw [if_pos hgrid, copyCutLoop_pass hbase htotal hgrid,
        copyCutLoop_pass hbase htotal (by linarith), ih htail k prev]
    rw [if_neg (not_lt.mpr hgrid), copyCutLoop_cut hbase htotal hgrid]
    rcases lt_or_ge p (base + 2 * (k + 1)) with hgap | hgap
    · -- only the grid cuts here
      rw [if_pos hgap, copyCutLoop_pass hbase htotal hgap]
      have hb : base < base + 2 * ((k : ℚ) + 1) := by linarith
      constructor
      · intro hpre hre
        obtain ⟨q, qs, hlist, hle⟩ := listedStarts_of_reopens htail hb hre prev
        rw [hlist, List.cons_prefix_cons, List.cons_prefix_cons] at hpre
        exact absurd hle (not_le.mpr (hpre.2.1 ▸ hgap))
      · intro hre
        exact (listedStarts_of_not_reopens htail hb hre prev).trans ⟨_, rfl⟩
    · -- both folds cut here
      have hnext : ∀ x : ℚ, x + 2 * ((k : ℚ) + 1) + 2 = x + 2 * (((k + 1 : ℕ) : ℚ) + 1) := by
        intro x; push_cast; ring
      have hgridNext : 2 * ((n : ℚ) + k + 1) + 2 = 2 * ((n : ℚ) + ((k + 1 : ℕ) : ℚ) + 1) := by
        push_cast; ring
      rw [if_neg (not_lt.mpr hgap), copyCutLoop_cut hbase htotal hgap, listedStarts_cons,
        List.cons_prefix_cons, hnext, hgridNext]
      simpa using ih htail (k + 1) p

theorem listedStarts_append_prefix_iff (prev : ℚ) (as bs cs : List ℚ) :
    listedStarts total prev (as ++ bs) <+: prev :: (as ++ cs) ↔
      listedStarts total (lastCut prev as) bs <+: lastCut prev as :: cs := by
  induction as generalizing prev with
  | nil => rfl
  | cons a as ih =>
    rw [List.cons_append, listedStarts_cons, List.cons_append, List.cons_prefix_cons, ih a]
    simp

/-- **The playlist keeps the numbers exactly when the folds merge.** -/
theorem playlist_prefix_iff {keyframes : List ℚ} (hkf : keyframes.Pairwise (· ≤ ·)) (start : ℕ) :
    listedStarts total 0 (playlistCuts keyframes total (copyResumeBase keyframes total start).1
        (copyResumeBase keyframes total start).2) <+:
      0 :: copyCutPoints keyframes 0 total hlsSegmentSecs ↔
    ResumeMerges keyframes total start := by
  have hat := copyResumeBase_resumesAt hkf total start
  unfold ResumeMerges
  revert hat
  generalize copyResumeBase keyframes total start = r
  obtain ⟨n, base⟩ := r
  rintro ⟨hcuts, hlast, -, hb⟩
  rw [← copyCutPoints_zero] at hcuts hlast
  simp only at hcuts hlast hb ⊢
  have hn : 2 * (n : ℚ) ≤ base := by linarith
  have hgrid : 2 * ((n : ℚ) + (0 : ℕ) + 1) = 2 + 2 * n := by push_cast; ring
  have hbase : base + 2 * (((0 : ℕ) : ℚ) + 1) = base + (hlsSegmentSecs : ℕ) := by
    simp [hlsSegmentSecs]
  rw [hcuts, playlistCuts, listedStarts_append_prefix_iff, hlast,
    ← listedStarts_prefix_iff hkf hn 0 base, hgrid, hbase]
  rfl

theorem mergesFrom_of_total_le (h : total ≤ base) (n k : ℕ) (ps : List ℚ) :
    MergesFrom base total n k ps := by
  induction ps with
  | nil => trivial
  | cons p ps ih =>
    rw [MergesFrom]
    rcases le_or_gt p base with hp | hp
    · rwa [if_pos hp]
    · rw [if_neg (not_le.mpr hp), if_pos (h.trans hp.le)]
      trivial

theorem resumeMerges_of_synthesizeCopy_none {keyframes : List ℚ} {fmp4 : Bool}
    (hkf : keyframes.Pairwise (· ≤ ·)) {start : ℕ}
    (h : synthesizeCopy keyframes total start fmp4 = none) :
    ResumeMerges keyframes total start := by
  have hlast := (copyResumeBase_resumesAt hkf total start).last_eq
  have hbase := copyResumeBase_snd_nonneg hkf total start
  rw [← copyCutPoints_zero] at hlast
  simp only [synthesizeCopy] at h
  split at h
  · next hnone =>
    rcases hnone with htotal | rfl
    · exact mergesFrom_of_total_le (htotal.trans hbase) _ _ _
    · trivial
  split at h
  · next hspan => exact mergesFrom_of_total_le (by linarith) _ _ _
  split at h
  · next hdurs =>
    rw [← playlist_prefix_iff hkf, ← startsFrom_copyDurs hlast, hdurs]
    exact List.nil_prefix
  · cases h

/-- **A session numbers its segments as the whole title does if and only if its resume
point merges**: from the resume base on, no keyframe reaches only the boundary of the
whole title's fold while another segment is still to be listed. -/
theorem numberingAgrees_iff {keyframes : List ℚ} (hkf : keyframes.Pairwise (· ≤ ·)) (total : ℚ)
    (start : ℕ) (fmp4 : Bool) :
    NumberingAgrees keyframes total start fmp4 ↔ ResumeMerges keyframes total start := by
  cases hm : synthesizeCopy keyframes total start fmp4 with
  | none =>
    refine iff_of_true ?_ (resumeMerges_of_synthesizeCopy_none hkf hm)
    exact fun m hsome => by rw [hm] at hsome; cases hsome
  | some m =>
    have hstarts := playbackStart_synthesizeCopy hkf hm
    rw [← playlist_prefix_iff hkf, List.prefix_iff_getElem?]
    constructor
    · intro hagree i hi
      rw [← copySegmentStart_eq]
      exact hagree m hm i _ (by rw [hstarts i, List.getElem?_eq_getElem hi])
    · intro hpre m' hm' i t ht
      obtain rfl := Option.some.inj (hm.symm.trans hm')
      rw [hstarts i] at ht
      obtain ⟨hi, rfl⟩ := List.getElem?_eq_some_iff.mp ht
      rw [copySegmentStart_eq]
      exact hpre i hi

/-- Keyframes four seconds apart merge, and a session from the second one keeps the
numbers. -/
theorem numberingAgrees_even :
    NumberingAgrees [0, 4, 8] 12 4 false :=
  (numberingAgrees_iff (by decide) 12 4 false).mpr (by decide +kernel)

/-- **A burst of keyframes after the resume point shifts the numbers.** The grid of the
whole title opens segment 2 at the keyframe of second 6; the playlist of a session that
resumes at second 5 does not cut there, and its segment 2 starts at second 7. -/
theorem not_numberingAgrees_burst :
    [(0 : ℚ), 5, 6, 7].Pairwise (· ≤ ·) ∧ ¬ NumberingAgrees [0, 5, 6, 7] 8 5 false := by
  refine ⟨by decide, fun h => ?_⟩
  have hplay : (synthesizeCopy [0, 5, 6, 7] 8 5 false).bind (playbackStart · 2) = some 7 := by
    decide +kernel
  have hgrid : copySegmentStart [0, 5, 6, 7] 8 2 = some 6 := by decide +kernel
  obtain ⟨m, hm, ht⟩ := Option.bind_eq_some_iff.mp hplay
  exact absurd (hgrid.symm.trans (h m hm 2 7 ht)) (by decide)

end merge

end EmeraldExchange.Transcoder
