import EmeraldExchange.Transcoder.VodManifest

/-!
# The synthesised playlists tile the title

`synthesize` and `synthesizeCopy`
write the playlist of the *whole* title, whatever the start of the session: the start
only sets `EXT-X-START`. This file reads the two playlists back as a player does –
`segments` pairs each segment name with the `EXTINF` before
it – and shows that what is read tiles the title
(`Tiles`): numbers without a gap, no empty segment, and
durations that add up to the title.

Two things bound the statement. A copy leaves out a last segment of a millisecond or
less, which is the slack of its tiling. And `EXT-X-TARGETDURATION` is a `u64`: a segment
longer than `u64Max` seconds is announced, but no target can
reach it.
-/

namespace EmeraldExchange.Transcoder

/-! ### Reading a playlist back -/

/-- The segments read from the lines, the last `EXTINF` read being `dur`. -/
def segmentsFrom : ℚ → List Line → List (ℕ × ℚ)
  | _, [] => []
  | _, .extinf d :: ls => segmentsFrom d ls
  | dur, .seg i _ :: ls => (i, dur) :: segmentsFrom dur ls
  | dur, _ :: ls => segmentsFrom dur ls

/-- **The segments a playlist emits**, each with its number and its duration. -/
def segments (playlist : List Line) : List (ℕ × ℚ) := segmentsFrom 0 playlist

def span (playlist : List Line) : ℚ := ((segments playlist).map Prod.snd).sum

/-- **A playlist tiles a title** of `total` seconds, but for the last `slack` seconds of
it at most. -/
structure Tiles (playlist : List Line) (total slack : ℚ) : Prop where
  /-- The numbers run from zero on without a gap. -/
  numbered : (segments playlist).map Prod.fst = List.range (segments playlist).length
  /-- No segment is empty. -/
  positive : ∀ s ∈ segments playlist, 0 < s.2
  /-- Nothing after the end is emitted. -/
  span_le : span playlist ≤ total
  /-- Only the slack is left out. -/
  le_span : total - slack ≤ span playlist
  /-- The start announced is a time of the title that the segments reach. -/
  start_mem : ∀ t, .start t ∈ playlist → 0 ≤ t ∧ t < total ∧ t ≤ span playlist

section read

variable {fmp4 : Bool} {targetDur startIdx : ℕ} {base : ℚ} {durs : List ℚ}

theorem segmentsFrom_segLines (i : ℕ) (dur : ℚ) (durs : List ℚ) :
    segmentsFrom dur (segLines fmp4 i durs ++ [.endlist]) =
      (List.range' i durs.length).zip durs := by
  induction durs generalizing i dur with
  | nil => rfl
  | cons d ds ih =>
    show (i, d) :: segmentsFrom d (segLines fmp4 (i + 1) ds ++ [.endlist]) = _
    rw [ih (i + 1) d]
    rfl

theorem segmentsFrom_headLines (dur : ℚ) (ls : List Line) :
    segmentsFrom dur (headLines fmp4 targetDur startIdx base ++ ls) = segmentsFrom dur ls := by
  by_cases hstart : 0 < startIdx <;> cases fmp4 <;> simp [headLines, hstart, segmentsFrom]

/-- **The segments read back** are the durations written, numbered from zero. -/
theorem segments_playlist :
    segments (headLines fmp4 targetDur startIdx base ++ segLines fmp4 0 durs ++ [.endlist]) =
      (List.range durs.length).zip durs := by
  rw [segments, List.append_assoc, segmentsFrom_headLines, segmentsFrom_segLines,
    List.range_eq_range']

theorem of_mem_segLines {l : Line} {i : ℕ} (h : l ∈ segLines fmp4 i durs) :
    (∃ d, l = .extinf d) ∨ ∃ j, l = .seg j fmp4 := by
  induction durs generalizing i with
  | nil => cases h
  | cons d ds ih =>
    rcases List.mem_cons.mp h with rfl | h
    · exact .inl ⟨d, rfl⟩
    rcases List.mem_cons.mp h with rfl | h
    · exact .inr ⟨i, rfl⟩
    · exact ih h

theorem mem_headLines_of_mem {l : Line}
    (h : l ∈ headLines fmp4 targetDur startIdx base ++ segLines fmp4 0 durs ++ [.endlist])
    (hextinf : ∀ d, l ≠ .extinf d) (hseg : ∀ j, l ≠ .seg j fmp4) (hend : l ≠ .endlist) :
    l ∈ headLines fmp4 targetDur startIdx base := by
  rcases List.mem_append.mp h with h | h
  · rcases List.mem_append.mp h with h | h
    · exact h
    · rcases of_mem_segLines h with ⟨d, hd⟩ | ⟨j, hj⟩
      · exact absurd hd (hextinf d)
      · exact absurd hj (hseg j)
  · exact absurd (List.mem_singleton.mp h) hend

/-- The start line of a playlist announces the base, where the session does not begin at
the beginning. -/
theorem start_mem_playlist {t : ℚ}
    (h : .start t ∈ headLines fmp4 targetDur startIdx base ++ segLines fmp4 0 durs ++ [.endlist]) :
    t = base := by
  have hhead := mem_headLines_of_mem h (by rintro _ ⟨⟩) (by rintro _ ⟨⟩) (by rintro ⟨⟩)
  by_cases hstart : 0 < startIdx
  · cases fmp4 <;> simpa [headLines, hstart] using hhead
  · cases fmp4 <;> simp [headLines, hstart] at hhead

theorem targetDuration_mem_playlist {secs : ℕ}
    (h : .targetDuration secs ∈
      headLines fmp4 targetDur startIdx base ++ segLines fmp4 0 durs ++ [.endlist]) :
    secs = targetDur := by
  have hhead := mem_headLines_of_mem h (by rintro _ ⟨⟩) (by rintro _ ⟨⟩) (by rintro ⟨⟩)
  by_cases hstart : 0 < startIdx <;> cases fmp4 <;> simpa [headLines, hstart] using hhead

theorem span_playlist :
    span (headLines fmp4 targetDur startIdx base ++ segLines fmp4 0 durs ++ [.endlist]) =
      durs.sum := by
  rw [span, segments_playlist, List.map_snd_zip (by simp)]

theorem snd_mem_of_mem_segments {s : ℕ × ℚ}
    (h : s ∈ segments
      (headLines fmp4 targetDur startIdx base ++ segLines fmp4 0 durs ++ [.endlist])) :
    s.2 ∈ durs := by
  rw [segments_playlist] at h
  exact (List.of_mem_zip h).2

/-- **What is left to show of a playlist** once its durations are known: they are
positive, they add up to the title but for the slack, and the base is a time of it. -/
theorem tiles_playlist {total slack : ℚ} (hpos : ∀ d ∈ durs, 0 < d) (hle : durs.sum ≤ total)
    (hge : total - slack ≤ durs.sum) (hbase : 0 ≤ base ∧ base < total ∧ base ≤ durs.sum) :
    Tiles (headLines fmp4 targetDur startIdx base ++ segLines fmp4 0 durs ++ [.endlist])
      total slack where
  numbered := by
    rw [segments_playlist, List.map_fst_zip (by simp)]
    simp
  positive := fun s hs => hpos s.2 (snd_mem_of_mem_segments hs)
  span_le := span_playlist.trans_le hle
  le_span := hge.trans_eq span_playlist.symm
  start_mem := fun t ht => by
    rw [start_mem_playlist ht, span_playlist]
    exact hbase

end read

/-! ### The playlist of an encoded session -/

section encode

variable {total : ℚ} {k : ℕ}

theorem encodeDurs_succ (total : ℚ) (k : ℕ) :
    encodeDurs total (k + 1) = List.replicate k 2 ++ [total - 2 * k] := by
  have hfirst : (List.range k).map (fun i => if i + 1 = k + 1 then
      total - hlsSegmentSecs * ((k + 1 - 1 : ℕ) : ℚ) else (hlsSegmentSecs : ℚ)) =
      List.replicate k 2 := by
    rw [List.eq_replicate_iff]
    refine ⟨by simp, ?_⟩
    rintro d hd
    obtain ⟨i, hi, rfl⟩ := List.mem_map.mp hd
    have hne : i + 1 ≠ k + 1 := by have := List.mem_range.mp hi; omega
    rw [if_neg hne]
    rfl
  rw [encodeDurs, List.range_succ, List.map_append, hfirst]
  simp [hlsSegmentSecs]

/-- **The segments of an encoded title add up to it.** -/
theorem sum_encodeDurs (total : ℚ) (k : ℕ) : (encodeDurs total (k + 1)).sum = total := by
  rw [encodeDurs_succ, List.sum_append, List.sum_replicate, List.sum_singleton, nsmul_eq_mul]
  ring

theorem pos_of_mem_encodeDurs (hk : 2 * (k : ℚ) < total) :
    ∀ d ∈ encodeDurs total (k + 1), 0 < d := by
  rw [encodeDurs_succ]
  rintro d hd
  rcases List.mem_append.mp hd with hd | hd
  · rw [List.eq_of_mem_replicate hd]
    norm_num
  · rw [List.mem_singleton.mp hd]
    linarith

theorem le_of_mem_encodeDurs (hk : total ≤ 2 * ((k : ℚ) + 1)) :
    ∀ d ∈ encodeDurs total (k + 1), d ≤ 2 := by
  rw [encodeDurs_succ]
  rintro d hd
  rcases List.mem_append.mp hd with hd | hd
  · rw [List.eq_of_mem_replicate hd]
  · rw [List.mem_singleton.mp hd]
    linarith

/-- **A title is cut into one segment at least**: the segments but the last end before
the title does, and all of them cover it, unless a `u64` cannot count them. -/
theorem exists_segmentCount (htotal : 0 < total) :
    ∃ k : ℕ, min ⌈total / hlsSegmentSecs⌉₊ u64Max = k + 1 ∧ 2 * (k : ℚ) < total ∧
      (total ≤ 2 * u64Max → total ≤ 2 * ((k : ℚ) + 1)) := by
  have hceil : 0 < ⌈total / hlsSegmentSecs⌉₊ := Nat.ceil_pos.mpr (by simp [hlsSegmentSecs, htotal])
  have hmin : 0 < min ⌈total / hlsSegmentSecs⌉₊ u64Max := lt_min hceil (by decide)
  obtain ⟨k, hk⟩ := Nat.exists_eq_add_one.mpr hmin
  refine ⟨k, hk, ?_, fun hu => ?_⟩
  · have hlt : k < ⌈total / hlsSegmentSecs⌉₊ := by omega
    have := Nat.lt_ceil.mp hlt
    simp only [hlsSegmentSecs, Nat.cast_ofNat] at this
    linarith
  · have hle : ⌈total / hlsSegmentSecs⌉₊ ≤ u64Max := by
      rw [Nat.ceil_le]
      simp only [hlsSegmentSecs, Nat.cast_ofNat]
      linarith
    have hcover := Nat.le_ceil (total / (hlsSegmentSecs : ℚ))
    rw [min_eq_left hle] at hk
    rw [hk] at hcover
    push_cast [hlsSegmentSecs] at hcover
    linarith

theorem clampedStart_mem (htotal : 0 < total) (start : ℕ) :
    0 ≤ min (start : ℚ) (max (total - 1 / 1000) 0) ∧
      min (start : ℚ) (max (total - 1 / 1000) 0) < total := by
  constructor
  · exact le_min (Nat.cast_nonneg start) (le_max_right _ _)
  · exact (min_le_right _ _).trans_lt (max_lt (by linarith) htotal)

/-- **The playlist of an encoded session tiles the title**, without slack. -/
theorem synthesize_tiles (htotal : 0 < total) (start : ℕ) (fmp4 : Bool) :
    ∃ m, synthesize total start fmp4 = some m ∧ Tiles m total 0 ∧
      (total ≤ 2 * u64Max → ∀ secs : ℕ, .targetDuration secs ∈ m →
        ∀ s ∈ segments m, s.2 ≤ secs) := by
  obtain ⟨k, hcount, hbefore, hcover⟩ := exists_segmentCount htotal
  have hstart := clampedStart_mem htotal start
  refine ⟨_, by simp only [synthesize, if_neg (not_le.mpr htotal), hcount]; rfl, ?_, ?_⟩
  · exact tiles_playlist (pos_of_mem_encodeDurs hbefore) (sum_encodeDurs total k).le
      (by rw [sum_encodeDurs]; linarith)
      ⟨hstart.1, hstart.2, by rw [sum_encodeDurs]; exact hstart.2.le⟩
  · intro hu secs hsecs s hs
    rw [targetDuration_mem_playlist hsecs]
    exact le_of_mem_encodeDurs (hcover hu) s.2 (snd_mem_of_mem_segments hs)

end encode

/-! ### The playlist of a copy -/

section copy

variable {keyframes cuts durs : List ℚ} {total base prev : ℚ} {n : ℕ}

theorem sum_cutDurs (prev : ℚ) (cuts : List ℚ) :
    (cutDurs prev cuts).sum = lastCut prev cuts - prev := by
  induction cuts generalizing prev with
  | nil => simp [cutDurs]
  | cons c cs ih =>
    rw [cutDurs, List.sum_cons, ih c, lastCut_cons]
    ring

theorem pos_of_mem_cutDurs (hcuts : (prev :: cuts).Pairwise (· < ·)) :
    ∀ d ∈ cutDurs prev cuts, 0 < d := by
  induction cuts generalizing prev with
  | nil => simp [cutDurs]
  | cons c cs ih =>
    obtain ⟨hprev, hcs⟩ := List.pairwise_cons.mp hcuts
    rintro d hd
    rcases List.mem_cons.mp hd with rfl | hd
    · exact sub_pos.mpr (hprev c List.mem_cons_self)
    · exact ih hcs d hd

theorem le_lastCut (hcuts : (prev :: cuts).Pairwise (· < ·)) : prev ≤ lastCut prev cuts := by
  induction cuts generalizing prev with
  | nil => exact le_rfl
  | cons c cs ih =>
    obtain ⟨hprev, hcs⟩ := List.pairwise_cons.mp hcuts
    exact (hprev c List.mem_cons_self).le.trans (ih hcs)

theorem lastCut_lt (hprev : prev < total) (hcuts : ∀ c ∈ cuts, c < total) :
    lastCut prev cuts < total := by
  induction cuts generalizing prev with
  | nil => exact hprev
  | cons c cs ih =>
    exact ih (hcuts c List.mem_cons_self) fun c' hc' => hcuts c' (List.mem_cons_of_mem _ hc')

theorem lt_total_of_mem_copyCutLoop {hls boundary c : ℚ} {ps : List ℚ}
    (h : c ∈ copyCutLoop base total hls boundary ps) : c < total := by
  fun_induction copyCutLoop base total hls boundary ps with
  | case1 => simp at h
  | case2 _ _ _ _ ih => exact ih h
  | case3 => simp at h
  | case4 _ p _ _ ht _ ih =>
    rcases List.mem_cons.mp h with rfl | h
    · exact not_le.mp ht
    · exact ih h
  | case5 _ _ _ _ _ _ ih => exact ih h

theorem pairwise_base_copyCutPoints (hkf : keyframes.Pairwise (· < ·)) (base total hls : ℚ) :
    (base :: copyCutPoints keyframes base total hls).Pairwise (· < ·) :=
  List.pairwise_cons.mpr ⟨fun _ hc => base_lt_of_mem_copyCutLoop hc,
    hkf.sublist (copyCutLoop_sublist _ _)⟩

theorem le_foldl_max {d : ℚ} (hd : d ∈ durs) (first : ℚ) : d ≤ durs.foldl max first := by
  have hle : ∀ (ds : List ℚ) (first : ℚ), first ≤ ds.foldl max first := by
    intro ds
    induction ds with
    | nil => exact fun _ => le_rfl
    | cons e es ih => exact fun first => (le_max_left _ _).trans (ih (max first e))
  induction durs generalizing first with
  | nil => cases hd
  | cons e es ih =>
    rcases List.mem_cons.mp hd with rfl | hd
    · exact (le_max_right _ _).trans (hle es _)
    · exact ih hd (max first e)

/-- **The target of a copy** reaches every duration that a `u64` reaches. -/
theorem le_copyTarget {d : ℚ} (hd : d ∈ durs) (hu : d ≤ u64Max) :
    d ≤ ((min (max 1 ⌈durs.foldl max 0⌉₊) u64Max : ℕ) : ℚ) := by
  rw [Nat.cast_min]
  refine le_min ?_ hu
  have hceil : durs.foldl max 0 ≤ ⌈durs.foldl max 0⌉₊ := Nat.le_ceil _
  have hmax : ((⌈durs.foldl max 0⌉₊ : ℕ) : ℚ) ≤ ((max 1 ⌈durs.foldl max 0⌉₊ : ℕ) : ℚ) := by
    exact_mod_cast le_max_right _ _
  exact (le_foldl_max hd 0).trans (hceil.trans hmax)

/-- **Where the segments of a copy stop**: they reach from the beginning to the end, or to
the last cut where no more than the tail is left. -/
theorem sum_copyDurs
    (hlast : lastCut 0 ((copyCutPoints keyframes 0 total hlsSegmentSecs).take n) = base) :
    (copyDurs keyframes total n base).sum =
      if minTail < total - lastCut base (copyCutPoints keyframes base total hlsSegmentSecs)
        then total
        else lastCut base (copyCutPoints keyframes base total hlsSegmentSecs) := by
  simp only [copyDurs, List.sum_append, sum_cutDurs, hlast]
  by_cases htail :
      minTail < total - lastCut base (copyCutPoints keyframes base total hlsSegmentSecs)
  · rw [if_pos htail, if_pos htail, List.sum_singleton]
    ring
  · rw [if_neg htail, if_neg htail, List.sum_nil]
    ring

theorem pos_of_mem_copyDurs (hkf : keyframes.Pairwise (· < ·)) (total : ℚ) (n : ℕ) (base : ℚ) :
    ∀ d ∈ copyDurs keyframes total n base, 0 < d := by
  have hfull := pairwise_base_copyCutPoints hkf 0 total hlsSegmentSecs
  have htaken : (0 :: (copyCutPoints keyframes 0 total hlsSegmentSecs).take n).Pairwise (· < ·) :=
    hfull.sublist ((List.take_sublist _ _).cons_cons 0)
  rintro d hd
  rcases List.mem_append.mp hd with hd | hd
  · rcases List.mem_append.mp hd with hd | hd
    · exact pos_of_mem_cutDurs htaken d hd
    · exact pos_of_mem_cutDurs (pairwise_base_copyCutPoints hkf base total hlsSegmentSecs) d hd
  · -- the last segment is listed where more than the tail is left
    split at hd
    · next htail =>
      rw [List.mem_singleton.mp hd]
      exact lt_trans (by norm_num [minTail]) htail
    · cases hd

theorem copyResumeBase_snd_lt (hkf : keyframes.Pairwise (· ≤ ·)) (htotal : 0 < total)
    (start : ℕ) : (copyResumeBase keyframes total start).2 < total := by
  have hlast := (copyResumeBase_resumesAt hkf total start).last_eq
  rw [← hlast]
  exact lastCut_lt htotal fun c hc =>
    lt_total_of_mem_copyCutLoop (List.mem_of_mem_take hc)

/-- What `synthesizeCopy` returns is the playlist of its durations. -/
theorem synthesizeCopy_eq_some {start : ℕ} {fmp4 : Bool} {m : List Line}
    (h : synthesizeCopy keyframes total start fmp4 = some m) :
    ∃ durs, durs = copyDurs keyframes total (copyResumeBase keyframes total start).1
        (copyResumeBase keyframes total start).2 ∧
      m = headLines fmp4 (min (max 1 ⌈durs.foldl max 0⌉₊) u64Max)
        (copyResumeBase keyframes total start).1 (copyResumeBase keyframes total start).2 ++
        segLines fmp4 0 durs ++ [.endlist] := by
  refine ⟨_, rfl, ?_⟩
  simp only [synthesizeCopy] at h
  split at h
  · cases h
  split at h
  · cases h
  split at h
  · cases h
  exact (Option.some.inj h).symm

theorem exists_synthesizeCopy (hkf : keyframes.Pairwise (· < ·)) (hne : keyframes ≠ [])
    (htotal : minTail < total) (start : ℕ) (fmp4 : Bool) :
    ∃ m, synthesizeCopy keyframes total start fmp4 = some m := by
  have hpos : 0 < total := lt_trans (by norm_num [minTail]) htotal
  have hle := hkf.imp fun h => h.le
  have hlast := (copyResumeBase_resumesAt hle total start).last_eq
  have hbase := copyResumeBase_snd_lt hle hpos start
  rw [← copyCutPoints_zero] at hlast
  have hdurs : copyDurs keyframes total (copyResumeBase keyframes total start).1
      (copyResumeBase keyframes total start).2 ≠ [] := by
    intro hnil
    have hsum := sum_copyDurs hlast
    rw [hnil, List.sum_nil] at hsum
    have hge := (copyResumeBase_snd_nonneg hle total start).trans
      (le_lastCut (pairwise_base_copyCutPoints hkf _ total hlsSegmentSecs))
    split at hsum
    · linarith
    · next htail =>
      rw [← hsum] at htail
      linarith
  simp only [synthesizeCopy]
  rw [if_neg (by simp [hne, hpos]), if_neg (by linarith), if_neg hdurs]
  exact ⟨_, rfl⟩

/-- **The playlist of a copy tiles the title**, but for a last segment of no more than the
tail. -/
theorem synthesizeCopy_tiles (hkf : keyframes.Pairwise (· < ·)) (htotal : 0 < total)
    {start : ℕ} {fmp4 : Bool} {m : List Line}
    (h : synthesizeCopy keyframes total start fmp4 = some m) :
    Tiles m total minTail ∧
      ∀ secs : ℕ, .targetDuration secs ∈ m → ∀ s ∈ segments m, s.2 ≤ u64Max → s.2 ≤ secs := by
  have hle := hkf.imp fun h => h.le
  have hlast := (copyResumeBase_resumesAt hle total start).last_eq
  have hnonneg := copyResumeBase_snd_nonneg hle total start
  have hbase := copyResumeBase_snd_lt hle htotal start
  rw [← copyCutPoints_zero] at hlast
  obtain ⟨durs, hdurs, rfl⟩ := synthesizeCopy_eq_some h
  have hsum := sum_copyDurs hlast
  rw [← hdurs] at hsum
  have hcut : lastCut (copyResumeBase keyframes total start).2
      (copyCutPoints keyframes (copyResumeBase keyframes total start).2 total hlsSegmentSecs) <
      total := lastCut_lt hbase fun c hc => lt_total_of_mem_copyCutLoop hc
  have hafter := le_lastCut (pairwise_base_copyCutPoints hkf
    (copyResumeBase keyframes total start).2 total hlsSegmentSecs)
  constructor
  · refine tiles_playlist ?_ ?_ ?_ ⟨hnonneg, hbase, ?_⟩
    · exact hdurs ▸ pos_of_mem_copyDurs hkf total _ _
    all_goals rw [hsum]; split
    · exact le_rfl
    · exact hcut.le
    · linarith [show (0 : ℚ) < minTail by norm_num [minTail]]
    · next htail => linarith
    · exact hbase.le
    · exact hafter
  · rintro secs hsecs s hs hu
    rw [targetDuration_mem_playlist hsecs]
    exact le_copyTarget (snd_mem_of_mem_segments hs) hu

/-- **The synthesised playlists tile the title.** For every title, every strictly
ascending list of keyframes and every start, both playlists emit segments without a gap
in their numbers and without an empty one, whose durations add up to the title – for a
copy, but for the tail that is not listed – and announce a start that lies in the title
and in what is emitted. The target bounds every duration as far as a `u64` reaches. -/
theorem synthesized_playlists_tile {keyframes : List ℚ} {total : ℚ} (htotal : 0 < total)
    (hkf : keyframes.Pairwise (· < ·)) (start : ℕ) (fmp4 : Bool) :
    (∃ m, synthesize total start fmp4 = some m ∧ Tiles m total 0 ∧
      (total ≤ 2 * u64Max → ∀ secs : ℕ, .targetDuration secs ∈ m →
        ∀ s ∈ segments m, s.2 ≤ secs)) ∧
    (keyframes ≠ [] → minTail < total → (synthesizeCopy keyframes total start fmp4).isSome) ∧
    ∀ m, synthesizeCopy keyframes total start fmp4 = some m → Tiles m total minTail ∧
      ∀ secs : ℕ, .targetDuration secs ∈ m → ∀ s ∈ segments m, s.2 ≤ u64Max → s.2 ≤ secs := by
  refine ⟨synthesize_tiles htotal start fmp4, fun hne htail => ?_, fun m hm => ?_⟩
  · rw [Option.isSome_iff_exists]
    exact exists_synthesizeCopy hkf hne htail start fmp4
  · exact synthesizeCopy_tiles hkf htotal hm

/-- A title of five seconds whose keyframes are three seconds apart, resumed at its third
second. -/
theorem synthesized_playlists_tile_five :
    ∃ m, synthesizeCopy [0, 3] 5 3 true = some m ∧ Tiles m 5 minTail := by
  obtain ⟨-, hsome, htiles⟩ :=
    synthesized_playlists_tile (by norm_num : (0 : ℚ) < 5)
      (by decide +kernel : ([0, 3] : List ℚ).Pairwise (· < ·)) 3 true
  obtain ⟨m, hm⟩ := Option.isSome_iff_exists.mp (hsome (by decide) (by norm_num [minTail]))
  exact ⟨m, hm, (htiles m hm).1⟩

/-- **A resumed playlist does not stop at what remains.** A title of ten seconds started
at its fourth is listed whole, ten seconds and not six, by both functions. -/
theorem span_ne_remaining :
    (∃ m, synthesize 10 4 false = some m ∧ span m ≠ 10 - 4) ∧
    ∃ m, synthesizeCopy [0, 4] 10 4 false = some m ∧ span m ≠ 10 - 4 := by
  have hencode : (synthesize 10 4 false).map span = some 10 := by decide +kernel
  have hcopy : (synthesizeCopy [0, 4] 10 4 false).map span = some 10 := by decide +kernel
  obtain ⟨m, hm, hspan⟩ := Option.map_eq_some_iff.mp hencode
  obtain ⟨m', hm', hspan'⟩ := Option.map_eq_some_iff.mp hcopy
  exact ⟨⟨m, hm, by rw [hspan]; norm_num⟩, m', hm', by rw [hspan']; norm_num⟩

end copy

end EmeraldExchange.Transcoder
