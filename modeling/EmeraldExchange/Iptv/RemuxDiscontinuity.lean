import EmeraldExchange.Iptv.RemuxContinuity

/-!
# The live remux index: discontinuity numbers

A client numbers the discontinuities of a live playlist: the number of a segment is the
discontinuity sequence of the playlist and the discontinuity tags at or before it. The number is
the segment's own, so it is not to depend on the playlist that the segment is read in.

A session swap bumps the discontinuity sequence. A relaunch in place leaves a tag in the source
instead, which is served while a segment stands before it and dropped from then on, and nothing
counts it. So the numbers are the same in every playlist
(`stable_of_runs`) as long as no window slides to such a tag, or past
it, while it still lists a segment of a window that had the tag inside. When one does, the number of
every segment that is left goes down
(`not_stable_relaunch`).
-/

namespace EmeraldExchange.Iptv.RemuxMap

/-! ### Discontinuities in a playlist -/

def tagCount (lines : List Line) : ℕ := lines.count discontinuityTag

/-- For each segment of some lines, the discontinuity tags at or before it, `n` being those that
come before the lines. -/
def marksFrom (n : ℕ) : List Line → List ℕ
  | [] => []
  | l :: lines =>
    if isUri l then n :: marksFrom n lines
    else marksFrom (if l = discontinuityTag then n + 1 else n) lines

/-- For each segment of a playlist, the discontinuity tags at or before it. -/
abbrev marks (lines : List Line) : List ℕ := marksFrom 0 lines

def isSegment (line : Line) : Bool := isUri line && isSegFile (segOf line)

/-- The discontinuity tags before the first segment file. -/
def lead : List Line → ℕ
  | [] => 0
  | l :: lines => if isSegment l then 0 else tagCount [l] + lead lines

theorem marksFrom_cons (n : ℕ) (l : Line) (lines : List Line) : marksFrom n (l :: lines) =
    if isUri l then n :: marksFrom n lines
    else marksFrom (if l = discontinuityTag then n + 1 else n) lines := rfl

theorem lead_cons (l : Line) (lines : List Line) :
    lead (l :: lines) = if isSegment l then 0 else tagCount [l] + lead lines := rfl

@[simp] theorem lead_nil : lead [] = 0 := rfl

theorem isUri_discontinuityTag : isUri discontinuityTag = false := by decide

theorem tagCount_append (lines lines' : List Line) :
    tagCount (lines ++ lines') = tagCount lines + tagCount lines' := List.count_append

theorem tagCount_singleton (l : Line) :
    tagCount [l] = if l = discontinuityTag then 1 else 0 := by
  simp [tagCount, List.count_singleton]

theorem marksFrom_append (lines lines' : List Line) (n : ℕ) :
    marksFrom n (lines ++ lines') =
      marksFrom n lines ++ marksFrom (n + tagCount lines) lines' := by
  induction lines generalizing n with
  | nil => rfl
  | cons l lines ih =>
    rw [List.cons_append, marksFrom_cons, marksFrom_cons, ih, ih, show l :: lines = [l] ++ lines from rfl,
      tagCount_append, tagCount_singleton]
    by_cases huri : isUri l
    · have hne : l ≠ discontinuityTag := by
        rintro rfl
        exact absurd huri (by decide)
      simp [huri, hne]
    · by_cases htag : l = discontinuityTag
      · simp [htag, isUri_discontinuityTag, Nat.add_assoc]
      · simp [huri, htag]

theorem marks_concat (lines : List Line) (l : Line) :
    marks (lines ++ [l]) = marks lines ++ if isUri l then [tagCount lines] else [] := by
  rw [marks, marksFrom_append, Nat.zero_add]
  rw [marksFrom_cons]
  split <;> rfl

theorem marksFrom_le {lines : List Line} {n m : ℕ} (h : m ∈ marksFrom n lines) :
    m ≤ n + tagCount lines := by
  induction lines generalizing n with
  | nil => exact absurd h List.not_mem_nil
  | cons l lines ih =>
    rw [show l :: lines = [l] ++ lines from rfl, tagCount_append, tagCount_singleton]
    rw [marksFrom_cons] at h
    by_cases huri : isUri l
    · rw [if_pos huri, List.mem_cons] at h
      rcases h with rfl | h
      · exact Nat.le_add_right _ _
      · have := ih h
        omega
    · rw [if_neg huri] at h
      have := ih h
      by_cases htag : l = discontinuityTag
      · rw [if_pos htag] at this ⊢
        omega
      · rw [if_neg htag] at this ⊢
        omega

theorem length_marksFrom (lines : List Line) (n : ℕ) :
    (marksFrom n lines).length = (uris lines).length := by
  induction lines generalizing n with
  | nil => rfl
  | cons l lines ih =>
    rw [marksFrom_cons, uris, List.filter_cons]
    by_cases huri : isUri l
    · rw [if_pos huri, if_pos huri, List.length_cons, List.length_cons, ih, uris]
    · rw [if_neg huri, if_neg huri, ih, uris]

theorem lead_of_not_any {lines : List Line} (h : lines.any isSegment = false) :
    lead lines = tagCount lines := by
  induction lines with
  | nil => rfl
  | cons l lines ih =>
    rw [List.any_cons, Bool.or_eq_false_iff] at h
    rw [lead_cons, if_neg (by simp [h.1]), ih h.2, show l :: lines = [l] ++ lines from rfl,
      tagCount_append]

theorem lead_append (lines lines' : List Line) : lead (lines ++ lines') =
    if lines.any isSegment then lead lines else lead lines + lead lines' := by
  induction lines with
  | nil => simp
  | cons l lines ih =>
    rw [List.cons_append, lead_cons, lead_cons, ih]
    by_cases hl : isSegment l
    · simp [hl]
    · by_cases hany : lines.any isSegment
      · simp [hl, hany]
      · simp [hl, hany, Nat.add_assoc]

theorem lead_concat (lines : List Line) (l : Line) : lead (lines ++ [l]) =
    if lines.any isSegment || isSegment l then lead lines else lead lines + tagCount [l] := by
  rw [lead_append]
  by_cases hany : lines.any isSegment
  · simp [hany]
  · by_cases hl : isSegment l <;> simp [hany, hl, lead_cons]

theorem lead_le (lines : List Line) : lead lines ≤ tagCount lines := by
  induction lines with
  | nil => exact le_rfl
  | cons l lines ih =>
    rw [show l :: lines = [l] ++ lines from rfl, tagCount_append, List.singleton_append, lead_cons]
    split <;> omega

/-! ### What the pass does with them -/

namespace Rewrite

variable {r : Rewrite}

theorem append_ne_discontinuityTag {tag : Line} (h : 20 < tag.length) (rest : Line) :
    tag ++ rest ≠ discontinuityTag := by
  intro heq
  have := congrArg List.length heq
  rw [List.length_append, show discontinuityTag.length = 20 from rfl] at this
  omega

theorem tagCount_tags : tagCount r.tags = 0 := by
  rw [tagCount, List.count_eq_zero]
  intro hmem
  rcases List.mem_cons.mp hmem with heq | hmem
  · exact append_ne_discontinuityTag (by decide) _ heq.symm
  · split at hmem
    · exact append_ne_discontinuityTag (by decide) _ (List.mem_singleton.mp hmem).symm
    · exact List.not_mem_nil hmem

theorem marks_tags (n : ℕ) : marksFrom n r.tags = [] := by
  rw [← List.length_eq_zero_iff, length_marksFrom, uris_tags]
  rfl

/-- **The discontinuities after some lines of a pass**: the leading tags are left out. -/
structure Numbered (r : Rewrite) (lines : List Line) (p : Pass) : Prop where
  seen : p.seenSegment = lines.any isSegment
  count : tagCount p.out = tagCount lines - lead lines
  marked : marks p.out = (marks lines).map (· - lead lines)
  bumps : tagNumber discontinuitySequenceTag p.out =
    if p.seqEmitted && r.disc > 0 then some r.disc.toNat else none
  emitted : lines.any mediaSequenceTag.isPrefixOf = true → p.seqEmitted = true
  paths : Paths p.cache

theorem numbered_nil {cache : Option SegUrls} (h : Paths cache) :
    Numbered r [] ⟨false, false, 0, [], [], cache⟩ :=
  ⟨rfl, rfl, rfl, rfl, by simp, h⟩

theorem Numbered.emitSeq {lines : List Line} {p : Pass} (h : Numbered r lines p)
    (hdisc : 0 ≤ r.disc) :
    Numbered r lines (r.emitSeq p) ∧ (r.emitSeq p).seqEmitted = true := by
  unfold Rewrite.emitSeq
  split
  · next hemitted => exact ⟨h, hemitted⟩
  · next hemitted =>
    refine ⟨⟨h.seen, ?_, ?_, ?_, fun _ => rfl, h.paths⟩, rfl⟩
    · rw [tagCount_append, tagCount_tags, h.count, Nat.add_zero]
    · rw [marks, marksFrom_append, marks_tags, List.append_nil]
      exact h.marked
    · rw [tagNumber_append, h.bumps, tagNumber_discontinuitySequence_tags hdisc]
      simp [hemitted]

theorem Numbered.skip {lines : List Line} {p : Pass} {line : Line} (h : Numbered r lines p)
    (huri : isUri line = false) (htag : line = discontinuityTag → p.seenSegment = false)
    (hemitted : mediaSequenceTag.isPrefixOf line = true → p.seqEmitted = true) :
    Numbered r (lines ++ [line]) p := by
  have hseg : isSegment line = false := by rw [isSegment, huri, Bool.false_and]
  have hmarks : marks (lines ++ [line]) = marks lines := by simp [marks_concat, huri]
  have hsame : tagCount lines - lead lines =
        tagCount (lines ++ [line]) - lead (lines ++ [line]) ∧
      (marks lines).map (· - lead lines) = (marks lines).map (· - lead (lines ++ [line])) := by
    rw [lead_concat, hseg, Bool.or_false, tagCount_append, tagCount_singleton]
    by_cases hline : line = discontinuityTag
    · -- nothing has been seen, so every tag is a leading one
      have hunseen : lines.any isSegment = false := by rw [← h.seen, htag hline]
      rw [if_pos hline, if_neg (by simp [hunseen]), lead_of_not_any hunseen]
      refine ⟨by omega, List.map_congr_left fun m hm => ?_⟩
      have := marksFrom_le hm
      omega
    · rw [if_neg hline, Nat.add_zero, Nat.add_zero, ite_self]
      exact ⟨rfl, rfl⟩
  refine ⟨?_, ?_, ?_, h.bumps, ?_, h.paths⟩
  · simpa [hseg] using h.seen
  · rw [h.count, hsame.1]
  · rw [h.marked, hmarks, hsame.2]
  · intro hany
    rw [List.any_append, Bool.or_eq_true] at hany
    rcases hany with hany | hany
    · exact h.emitted hany
    · exact hemitted (by simpa using hany)

theorem Numbered.keep {lines : List Line} {p : Pass} {line : Line} (h : Numbered r lines p)
    (hseg : isSegment line = false) (htag : line = discontinuityTag → p.seenSegment = true)
    (hnumber : mediaSequenceTag.isPrefixOf line = false)
    (hbumps : tagNumber discontinuitySequenceTag [line] = none) :
    Numbered r (lines ++ [line]) { p with out := p.out ++ [line] } := by
  have hlead : lead (lines ++ [line]) = lead lines := by
    rw [lead_concat, hseg, Bool.or_false, ← h.seen, tagCount_singleton]
    by_cases hline : line = discontinuityTag
    · rw [if_pos (htag hline)]
    · rw [if_neg hline, Nat.add_zero, ite_self]
  have hle := lead_le lines
  refine ⟨?_, ?_, ?_, ?_, ?_, h.paths⟩
  · simpa [hseg] using h.seen
  · rw [tagCount_append, h.count, hlead, tagCount_append]
    omega
  · rw [marks_concat, h.marked, marks_concat, hlead, h.count]
    by_cases huri : isUri line <;> simp [huri]
  · rw [tagNumber_append, h.bumps, hbumps, Option.or_none]
  · intro hany
    exact h.emitted (by simpa [hnumber] using hany)

theorem Numbered.segment {lines : List Line} {p : Pass} {line : Line} (h : Numbered r lines p)
    (hdisc : 0 ≤ r.disc) (hseg : isSegment line = true)
    (hnumber : mediaSequenceTag.isPrefixOf line = false) :
    Numbered r (lines ++ [line]) (r.segment (segOf line) p) := by
  -- the tags of the pass may be out before it
  obtain ⟨p', hp', h'⟩ : ∃ p', (if !p.seenSegment && (r.first > 0 || r.disc > 0) then
      r.emitSeq p else p) = p' ∧ Numbered r lines p' := by
    refine ⟨_, rfl, ?_⟩
    split
    · exact (h.emitSeq hdisc).1
    · exact h
  have huri : isUri line = true := (Bool.and_eq_true_iff.mp hseg).1
  have hurl := isUri_url (r := r) h'.paths (segOf line)
  have hzero : ∀ l, isUri l = true → tagCount [l] = 0 := by
    rintro l hl
    rw [tagCount_singleton, if_neg]
    rintro rfl
    exact absurd hl (by decide)
  have hlead : lead (lines ++ [line]) = lead lines := by
    rw [lead_concat, hseg, Bool.or_true, if_pos rfl]
  unfold Rewrite.segment
  rw [hp']
  refine ⟨?_, ?_, ?_, ?_, ?_, paths_remember h'.paths _⟩
  · simp [hseg]
  · rw [tagCount_append, h'.count, tagCount_append, hzero _ hurl, hzero _ huri, hlead,
      Nat.add_zero, Nat.add_zero]
  · rw [marks_concat, h'.marked, marks_concat, hlead, h'.count, if_pos hurl, if_pos huri]
    simp
  · rw [tagNumber_append, h'.bumps, tagNumber_url h'.paths _ head_discontinuitySequenceTag,
      Option.or_none]
  · intro hany
    exact h'.emitted (by simpa [hnumber] using hany)

theorem trim_ne_discontinuityTag {line : Line} (h : mediaSequenceTag.isPrefixOf line = true) :
    trim line ≠ discontinuityTag := by
  intro heq
  obtain ⟨rest, rfl⟩ := List.isPrefixOf_iff_prefix.mp h
  have hfront : (mediaSequenceTag ++ rest).dropWhile isWhitespace = mediaSequenceTag ++ rest := rfl
  have hprefix : trim (mediaSequenceTag ++ rest) <+: mediaSequenceTag ++ rest := by
    rw [trim, hfront, ← List.reverse_suffix, List.reverse_reverse]
    exact List.dropWhile_suffix _
  rw [heq] at hprefix
  exact absurd (List.prefix_of_prefix_length_le hprefix (List.prefix_append _ rest) (by decide))
    (by decide)

/-- **One line.** -/
theorem Numbered.line {lines : List Line} {p : Pass} {line : Line} (h : Numbered r lines p)
    (hdisc : 0 ≤ r.disc) (hfile : isUri line = true → segOf line ≠ discontinuityTag)
    (hbumps : tagNumber discontinuitySequenceTag [line] = none) :
    Numbered r (lines ++ [line]) (r.line p line) := by
  unfold Rewrite.line
  split
  · next hdrop =>
    obtain ⟨hunseen, htrim⟩ := Bool.and_eq_true_iff.mp hdrop
    have hsegOf : segOf line = discontinuityTag := by
      rw [segOf, of_decide_eq_true htrim]
      decide
    exact h.skip (Bool.eq_false_iff.mpr fun huri => hfile huri hsegOf)
      (fun _ => by simpa using hunseen) fun hprefix =>
        absurd (of_decide_eq_true htrim) (trim_ne_discontinuityTag hprefix)
  next hdrop =>
  split
  · next hprefix =>
    obtain ⟨rest, rfl⟩ := List.isPrefixOf_iff_prefix.mp hprefix
    obtain ⟨hpassed, hemitted⟩ := h.emitSeq hdisc
    exact hpassed.skip (isUri_tag head_mediaSequenceTag rest)
      (fun heq => absurd heq (append_ne_discontinuityTag (by decide) rest)) fun _ => hemitted
  next hprefix =>
  have hnumber := Bool.eq_false_iff.mpr hprefix
  split
  · next hcomment =>
    have huri : isUri line = false := by
      rw [isUri, hcomment]
      rfl
    refine h.keep (by rw [isSegment, huri, Bool.false_and]) (fun heq => ?_) hnumber hbumps
    -- before the first segment it would have been left out
    by_contra hunseen
    have htrim : trim line = discontinuityTag := by
      rw [heq]
      decide
    exact hdrop (by simp [hunseen, htrim])
  next hcomment =>
  have huri : isUri line = true := by
    rw [isUri, Bool.eq_false_iff.mpr hcomment]
    rfl
  split
  · next hnot =>
    refine h.keep (by simpa [isSegment, huri] using hnot) (fun heq => ?_) hnumber hbumps
    rw [heq] at huri
    exact absurd huri (by decide)
  · next hseg => exact h.segment hdisc (by simpa [isSegment, huri] using hseg) hnumber

/-- **A playlist**, line by line. -/
theorem numbered_pass {cache : Option SegUrls} {lines : List Line} (hdisc : 0 ≤ r.disc)
    (hfile : ∀ l ∈ uris lines, segOf l ≠ discontinuityTag)
    (hbare : tagNumber discontinuitySequenceTag lines = none) (hpaths : Paths cache) :
    Numbered r lines (r.pass cache lines) :=
  pass_induction (numbered_nil hpaths) fun _ line _ _ hsplit hp =>
    hp.line hdisc
      (fun huri => hfile line (List.mem_filter.mpr ⟨hsplit ▸ by simp, huri⟩))
      (tagNumber_line hsplit hbare)

end Rewrite

/-! ### The numbers of a poll -/

namespace Poll

variable (p : Poll)

def files : List Line := (uris p.source).map segOf

/-- The discontinuity numbers of its segments, in the same order. -/
def numbers : List ℕ := (marks p.served).map (p.discontinuitySequence + ·)

/-- The poll lists a segment file, under a discontinuity number. -/
def Lists (file : Line) (d : ℕ) : Prop :=
  ∃ i : ℕ, p.files[i]? = some file ∧ p.numbers[i]? = some d

end Poll

/-- **The discontinuity numbers are stable**: a segment of a session has the same number in all
polls that list it. -/
def Stable (polls : List Poll) : Prop :=
  ∀ p ∈ polls, ∀ q ∈ polls, p.session = q.session →
    ∀ file d e, p.Lists file d → q.Lists file e → d = e

/-- **A playlist as the muxer writes it**: a window of the segments of a session, with a media
sequence and without a discontinuity sequence. At or before segment `n` come `count n` of the
session's discontinuities. -/
structure Sourced (session : String) (count : ℕ → ℕ) (lines : List Line) : Prop where
  files : (uris lines).map segOf = (List.range (uris lines).length).map
    fun i => segmentFilename session (mediaSequence lines + i)
  seams : (marks lines).map (· + count (mediaSequence lines)) =
    (List.range (uris lines).length).map
      fun i => (marks lines).headD 0 + count (mediaSequence lines + i)
  number : lines.any mediaSequenceTag.isPrefixOf = true
  bare : tagNumber discontinuitySequenceTag lines = none

instance (session : String) (count : ℕ → ℕ) (lines : List Line) :
    Decidable (Sourced session count lines) :=
  decidable_of_iff ((uris lines).map segOf = (List.range (uris lines).length).map
      (fun i => segmentFilename session (mediaSequence lines + i)) ∧
    (marks lines).map (· + count (mediaSequence lines)) =
      (List.range (uris lines).length).map
        (fun i => (marks lines).headD 0 + count (mediaSequence lines + i)) ∧
    lines.any mediaSequenceTag.isPrefixOf = true ∧
    tagNumber discontinuitySequenceTag lines = none)
    ⟨fun h => ⟨h.1, h.2.1, h.2.2.1, h.2.2.2⟩, fun h => ⟨h.files, h.seams, h.number, h.bare⟩⟩

/-- The first segment has a segment file's name, unless there is no discontinuity at all. -/
def Headed (lines : List Line) : Prop :=
  discontinuityTag ∈ lines → ∀ l ∈ (uris lines).head?, isSegFile (segOf l) = true

instance (lines : List Line) : Decidable (Headed lines) := inferInstanceAs (Decidable (_ → _))

theorem segmentFilename_injective {session : String} {n m : ℕ}
    (h : segmentFilename session n = segmentFilename session m) : n = m := by
  have hdigits := List.append_cancel_left (List.append_cancel_right h)
  have hvalue : ∀ n, Nat.ofDigitChars 10 ((Nat.toDigits 10 n).leftpad 5 '0') 0 = n := by
    intro n
    rw [List.leftpad, Nat.ofDigitChars_append, Nat.ofDigitChars_replicate_zero, Nat.mul_zero,
      Nat.ofDigitChars_ten_toDigits]
  rw [← hvalue n, ← hvalue m, hdigits]

theorem segmentFilename_ne (session : String) (n : ℕ) :
    segmentFilename session n ≠ discontinuityTag := by
  intro h
  have hhead := congrArg List.head? h
  rw [show (segmentFilename session n).head? = some 's' from rfl] at hhead
  exact absurd hhead (by decide)

theorem headD_marksFrom {lines : List Line} (n : ℕ) (hne : uris lines ≠ [])
    (h : ∀ l ∈ (uris lines).head?, isSegFile (segOf l) = true) :
    (marksFrom n lines).headD 0 = n + lead lines := by
  induction lines generalizing n with
  | nil => exact absurd rfl hne
  | cons l lines ih =>
    rw [marksFrom_cons, lead_cons, isSegment]
    by_cases huri : isUri l
    · have hl : isSegFile (segOf l) = true := h l (by simp [uris, huri])
      simp [huri, hl]
    · have huris : uris (l :: lines) = uris lines := by simp [uris, huri]
      rw [huris] at hne h
      rw [if_neg huri, ih _ hne h, tagCount_singleton]
      by_cases htag : l = discontinuityTag
      · simp [htag, isUri_discontinuityTag, Nat.add_assoc]
      · simp [huri, htag]

theorem headD_marksFrom_le {lines : List Line} {n m : ℕ} (h : m ∈ marksFrom n lines) :
    (marksFrom n lines).headD 0 ≤ m := by
  have hle : ∀ lines n m, m ∈ marksFrom n lines → n ≤ m := by
    intro lines
    induction lines with
    | nil =>
      rintro n m hm
      exact absurd hm List.not_mem_nil
    | cons l lines ih =>
      rintro n m hm
      rw [marksFrom_cons] at hm
      split at hm
      · rcases List.mem_cons.mp hm with rfl | hm
        · exact le_rfl
        · exact ih _ _ hm
      · have := ih _ _ hm
        split at this <;> omega
  induction lines generalizing n with
  | nil => exact absurd h List.not_mem_nil
  | cons l lines ih =>
    rw [marksFrom_cons] at h ⊢
    split at h
    · next huri =>
      rw [if_pos huri]
      rcases List.mem_cons.mp h with rfl | h
      · exact le_rfl
      · exact hle _ _ _ h
    · next huri =>
      rw [if_neg huri]
      exact ih h

/-- **What is left of the discontinuities before a segment**: those after the first segment. -/
theorem Headed.sub_lead {lines : List Line} (h : Headed lines) {m : ℕ} (hm : m ∈ marks lines) :
    m - lead lines + (marks lines).headD 0 = m := by
  rw [marks] at hm ⊢
  by_cases htag : discontinuityTag ∈ lines
  · have hne : uris lines ≠ [] := by
      rw [← List.length_pos_iff, ← length_marksFrom lines 0]
      exact List.length_pos_of_mem hm
    have hhead := headD_marksFrom 0 hne (h htag)
    have hle := headD_marksFrom_le hm
    omega
  · have hzero : tagCount lines = 0 := List.count_eq_zero.mpr htag
    have hle := marksFrom_le hm
    have hle' := headD_marksFrom_le hm
    omega

/-- **A poll whose numbers are known**: each of its segments is numbered by the session swaps
before the poll and the discontinuities of its session since the first segment of the window. -/
structure Poll.Counted (count : String → ℕ → ℕ) (p : Poll) : Prop where
  files : p.files = (List.range p.files.length).map
    fun i => segmentFilename p.session (RemuxMap.mediaSequence p.source + i)
  numbers : p.numbers.map (· + count p.session (RemuxMap.mediaSequence p.source)) =
    (List.range p.files.length).map
      fun i => p.epoch + count p.session (RemuxMap.mediaSequence p.source + i)

/-- Two polls of a session with a common segment: as many swaps came between them as there are
discontinuities between the first segments of their windows. -/
def Aligned (count : String → ℕ → ℕ) (p q : Poll) : Prop :=
  p.session = q.session → (∃ file ∈ p.files, file ∈ q.files) →
    p.epoch + count p.session (mediaSequence q.source) =
      q.epoch + count p.session (mediaSequence p.source)

variable (streamId : List Char) {count : String → ℕ → ℕ} {p q : Poll}

theorem Poll.Counted.of_lists (h : p.Counted count) {file : Line} {d : ℕ} (hd : p.Lists file d) :
    ∃ n, file = segmentFilename p.session n ∧
      d + count p.session (RemuxMap.mediaSequence p.source) = p.epoch + count p.session n := by
  obtain ⟨i, hfile, hnumber⟩ := hd
  obtain ⟨hlt, -⟩ := List.getElem?_eq_some_iff.mp hfile
  have hat := congrArg (fun l => l[i]?) h.files
  have hat' := congrArg (fun l => l[i]?) h.numbers
  simp only [List.getElem?_map, List.getElem?_range hlt, Option.map_some, hfile, hnumber,
    Option.some.injEq] at hat hat'
  exact ⟨_, hat, hat'⟩

theorem Poll.Counted.exists_lists (h : p.Counted count) {file : Line} (hfile : file ∈ p.files) :
    ∃ d, p.Lists file d := by
  obtain ⟨i, hlt, hi⟩ := List.mem_iff_getElem.mp hfile
  have hlength : i < p.numbers.length := by
    have := congrArg List.length h.numbers
    rw [List.length_map, List.length_map, List.length_range] at this
    omega
  exact ⟨p.numbers[i], i, List.getElem?_eq_some_iff.mpr ⟨hlt, hi⟩,
    List.getElem?_eq_getElem hlength⟩

/-- **The numbers of some polls are stable if and only if any two polls are aligned.** -/
theorem stable_iff {polls : List Poll} (h : ∀ p ∈ polls, p.Counted count) :
    Stable polls ↔ ∀ p ∈ polls, ∀ q ∈ polls, Aligned count p q := by
  constructor
  · rintro hstable p hp q hq hsession ⟨file, hfile, hfile'⟩
    obtain ⟨d, hd⟩ := (h p hp).exists_lists hfile
    obtain ⟨e, he⟩ := (h q hq).exists_lists hfile'
    obtain rfl := hstable p hp q hq hsession file d e hd he
    obtain ⟨n, rfl, hn⟩ := (h p hp).of_lists hd
    obtain ⟨m, heq, hm⟩ := (h q hq).of_lists he
    rw [← hsession] at heq hm
    obtain rfl := segmentFilename_injective heq
    omega
  · rintro haligned p hp q hq hsession file d e hd he
    have hmem : ∀ {r : Poll} {d : ℕ}, r.Lists file d → file ∈ r.files := by
      rintro r d ⟨i, hi, -⟩
      exact List.mem_of_getElem? hi
    have halign := haligned p hp q hq hsession ⟨file, hmem hd, hmem he⟩
    obtain ⟨n, rfl, hn⟩ := (h p hp).of_lists hd
    obtain ⟨m, heq, hm⟩ := (h q hq).of_lists he
    rw [← hsession] at heq hm
    obtain rfl := segmentFilename_injective heq
    omega

/-- **What a rewriting serves** is numbered by the discontinuity sequence of its session, and by
the discontinuities of the source after the first segment. -/
theorem counted_rewriteRemuxManifest {text : List Char} {session : String}
    {cont : Option Continuity} {cache : Option SegUrls} (sign : Line → Line) {epoch : ℕ}
    (hepoch : (epoch : ℤ) =
      ((cont.getD (.new session)).enter session (localSeq (linesOf text))).discontinuitySeq)
    (hsourced : Sourced session (count session) (linesOf text)) (hheaded : Headed (linesOf text))
    (hpaths : Rewrite.Paths cache) :
    let w := rewriteRemuxManifest text streamId session cont cache sign
    Poll.Counted count ⟨session, linesOf text, w.out, epoch⟩ ∧ Rewrite.Paths w.cache ∧
      w.cont.sessionId = session ∧ w.cont.discontinuitySeq = epoch := by
  intro w
  obtain ⟨c, hc⟩ : ∃ c, (cont.getD (.new session)).enter session (localSeq (linesOf text)) = c :=
    ⟨_, rfl⟩
  obtain ⟨r, hr⟩ : ∃ r : Rewrite, r = ⟨streamId, session,
      wrap (localSeq (linesOf text) + c.offset), c.discontinuitySeq, sign⟩ := ⟨_, rfl⟩
  rw [hc] at hepoch
  have hdisc : r.disc = epoch := by rw [hr, hepoch]
  have hw : w = finish c r.first (r.pass cache (linesOf text)) := by
    show rewriteRemuxManifest text streamId session cont cache sign = _
    simp only [rewriteRemuxManifest, hc, hr]
  have hnumbered : Rewrite.Numbered r (linesOf text) (r.pass cache (linesOf text)) := by
    refine Rewrite.numbered_pass (by omega) (fun l hl => ?_) hsourced.bare hpaths
    have hmem := List.mem_map_of_mem (f := segOf) hl
    rw [hsourced.files] at hmem
    obtain ⟨i, -, hi⟩ := List.mem_map.mp hmem
    rw [← hi]
    exact segmentFilename_ne session _
  -- the number of swaps is served, as nothing if there were none
  have hsequence : discontinuitySequence w.out = epoch := by
    rw [hw, finish_out, discontinuitySequence, hnumbered.bumps, hnumbered.emitted hsourced.number,
      hdisc]
    by_cases hpos : 0 < epoch
    · simp [hpos]
    · obtain rfl : epoch = 0 := by omega
      rfl
  have hmarks : marks w.out = (marks (linesOf text)).map (· - lead (linesOf text)) := by
    rw [hw, finish_out, hnumbered.marked]
  refine ⟨⟨?_, ?_⟩, ?_, ?_, ?_⟩
  · rw [Poll.files, List.length_map]
    exact hsourced.files
  · rw [Poll.files, List.length_map, Poll.numbers, hmarks, Poll.discontinuitySequence, hsequence]
    have hseams := congrArg
      (List.map fun m => epoch + (m - (marks (linesOf text)).headD 0)) hsourced.seams
    rw [List.map_map, List.map_map] at hseams
    rw [List.map_map, List.map_map]
    refine Eq.trans (List.map_congr_left fun m hm => ?_)
      (hseams.trans (List.map_congr_left fun i _ => ?_))
    · have hsub := hheaded.sub_lead hm
      simp only [Function.comp_apply]
      omega
    · simp
  · rw [hw]
    rintro cache' hcache' url hurl
    obtain ⟨cache, hcache, rfl⟩ := Option.map_eq_some_iff.mp hcache'
    exact hnumbered.paths cache hcache url (Table.mem_values_of_retainKeys hurl)
  · rw [hw, finish_cont_sessionId, ← hc, Continuity.sessionId_enter]
  · rw [hw, finish_cont_discontinuitySeq, hepoch]

/-! ### Every step keeps the numbers -/

/-- **The sources are playlists of the muxer**, `count` telling where the discontinuities are. -/
def FromMuxer (count : String → ℕ → ℕ) : Act → Prop
  | .rewrite session text _ => Sourced session (count session) (linesOf text)
  | _ => True

/-- **No discontinuity that counts is forgotten.** Since each poll of the session that listed one
of the segments, as many swaps came as there are discontinuities between the first segments of the
two windows; discontinuities come with the names of segment files; and the swaps are a 64-bit
number. -/
def Keeps (count : String → ℕ → ℕ) (v : Viewer) : Act → Prop
  | .rewrite session text _ =>
    (∀ q ∈ v.polls, q.session = session →
      (∃ file ∈ q.files, file ∈ (uris (linesOf text)).map segOf) →
      nextEpoch session v.polls + count session (mediaSequence q.source) =
        q.epoch + count session (mediaSequence (linesOf text))) ∧
    Headed (linesOf text) ∧ (nextEpoch session v.polls : ℤ) < 2 ^ 63
  | _ => True

instance (count : String → ℕ → ℕ) : ∀ a, Decidable (FromMuxer count a)
  | .tune _ => inferInstanceAs (Decidable True)
  | .drop => inferInstanceAs (Decidable True)
  | .rewrite _ _ _ => inferInstanceAs (Decidable (Sourced _ _ _))

instance (count : String → ℕ → ℕ) (v : Viewer) : ∀ a, Decidable (Keeps count v a)
  | .tune _ => inferInstanceAs (Decidable True)
  | .drop => inferInstanceAs (Decidable True)
  | .rewrite _ _ _ => inferInstanceAs (Decidable (_ ∧ _))

/-- **The invariant**: the record counts the swaps, and any two polls are aligned. -/
structure Numbering (count : String → ℕ → ℕ) (v : Viewer) : Prop where
  index : ∀ e, v.index = some e → Rewrite.Paths (some e.2)
  start : v.cont = none → v.polls = []
  record : ∀ c, v.cont = some c → ∃ p ps, v.polls = p :: ps ∧
    p.session = c.sessionId ∧ (p.epoch : ℤ) = c.discontinuitySeq
  counted : ∀ p ∈ v.polls, p.Counted count
  aligned : ∀ p ∈ v.polls, ∀ q ∈ v.polls, Aligned count p q

theorem numbering_new : Numbering count Viewer.new where
  index := by rintro e ⟨⟩
  start _ := rfl
  record := by rintro c ⟨⟩
  counted := by rintro p ⟨⟩
  aligned := by rintro p ⟨⟩

theorem Numbering.nextEpoch_eq {v : Viewer} (h : Numbering count v) {session : String}
    (hlt : (nextEpoch session v.polls : ℤ) < 2 ^ 63) (seq : ℤ) :
    (nextEpoch session v.polls : ℤ) =
      ((v.cont.getD (.new session)).enter session seq).discontinuitySeq := by
  cases hcont : v.cont with
  | none => simp [h.start hcont, nextEpoch, Continuity.enter, Continuity.new]
  | some c =>
    obtain ⟨p, ps, hpolls, hsession, hepoch⟩ := h.record c hcont
    rw [hpolls, nextEpoch, hsession] at hlt ⊢
    rw [Option.getD_some, Continuity.enter]
    by_cases hsame : c.sessionId = session
    · rw [if_pos hsame, if_neg (not_not.mpr hsame)]
      exact hepoch
    · rw [if_neg hsame] at hlt ⊢
      rw [if_pos hsame]
      dsimp only
      rw [wrap_eq (by omega) (by omega), ← hepoch]
      push_cast
      rfl

theorem Aligned.symm (h : Aligned count p q) : Aligned count q p := by
  rintro hsession ⟨file, hfile, hfile'⟩
  rw [hsession]
  exact (h hsession.symm ⟨file, hfile', hfile⟩).symm

theorem Aligned.refl (p : Poll) : Aligned count p p := fun _ _ => rfl

/-- **One rewriting.** -/
theorem Numbering.rewrite {v v' : Viewer} {session : String} {text : List Char} {sign : Line → Line}
    (h : Numbering count v) (hsourced : Sourced session (count session) (linesOf text))
    (hkeeps : Keeps count v (.rewrite session text sign))
    (hstep : v.step streamId (.rewrite session text sign) = some v') : Numbering count v' := by
  obtain ⟨hkept, hheaded, hlt⟩ := hkeeps
  obtain ⟨hcounted, hpaths, hsession, hepoch⟩ := counted_rewriteRemuxManifest streamId sign
    (h.nextEpoch_eq hlt (localSeq (linesOf text))) hsourced hheaded (Viewer.paths h.index session)
  obtain rfl := Option.some.inj hstep
  generalize rewriteRemuxManifest text streamId session v.cont
    (v.index.bind fun e => if e.1 = session then some e.2 else none) sign = w at *
  obtain ⟨p', hp'⟩ : ∃ p' : Poll,
      p' = ⟨session, linesOf text, w.out, nextEpoch session v.polls⟩ := ⟨_, rfl⟩
  -- the new poll is aligned with those before
  have haligned : ∀ q ∈ v.polls, Aligned count p' q := by
    rintro q hq hsame ⟨file, hfile, hfile'⟩
    rw [hp'] at hsame hfile ⊢
    exact hkept q hq hsame.symm ⟨file, hfile', hfile⟩
  refine ⟨Viewer.paths_or h.index hpaths session, ?_, ?_, ?_, ?_⟩
  · rintro ⟨⟩
  · rintro c hc
    obtain rfl := Option.some.inj hc
    exact ⟨_, v.polls, rfl, hsession.symm, hepoch.symm⟩
  · rintro q hq
    rcases List.mem_cons.mp hq with rfl | hq
    · exact hcounted
    · exact h.counted q hq
  · rw [← hp']
    rintro p hp q hq
    rcases List.mem_cons.mp hp with hp | hp <;> rcases List.mem_cons.mp hq with hq | hq
    · rw [hp, hq]
      exact Aligned.refl _
    · rw [hp]
      exact haligned q hq
    · rw [hq]
      exact (haligned p hp).symm
    · exact h.aligned p hp q hq

/-- **Every guarded step keeps the invariant.** -/
theorem Numbering.step {v v' : Viewer} {a : Act} (h : Numbering count v)
    (hsourced : FromMuxer count a) (hkeeps : Keeps count v a)
    (hstep : v.step streamId a = some v') : Numbering count v' := by
  rcases a with session | _ | ⟨session, text, sign⟩
  · obtain rfl := Option.some.inj hstep
    refine ⟨?_, h.start, h.record, h.counted, h.aligned⟩
    -- a new entry has no addresses
    rintro e he urls hurls url hurl
    obtain rfl := Option.some.inj he
    obtain rfl := Option.some.inj hurls
    exact absurd hurl (by simp [Table.values])
  · obtain rfl := Option.some.inj hstep
    exact ⟨by rintro e ⟨⟩, h.start, h.record, h.counted, h.aligned⟩
  · exact h.rewrite streamId hsourced hkeeps hstep

/-- **The discontinuity numbers are stable.** In every run of polls of playlists that the muxer
writes, whatever relaunches and swaps come between, each segment has the same discontinuity number
in every playlist that lists it, if no poll forgets a discontinuity that counts. -/
theorem stable_of_runs {v : Viewer}
    (h : Runs (Viewer.step streamId) (fun v a => FromMuxer count a ∧ Keeps count v a)
      Viewer.new v) : Stable v.polls := by
  have hinv : Numbering count v := h.invariant numbering_new fun _ _ _ hv hguard hstep =>
    hv.step streamId hguard.1 hguard.2 hstep
  exact (stable_iff hinv.counted).mpr hinv.aligned

/-! ### A relaunch in place -/

/-- A window of a session's playlist, with a discontinuity before one segment. -/
def relaunchedText (seq count seam : ℕ) : List Char :=
  "#EXTM3U\n#EXT-X-MEDIA-SEQUENCE:".toList ++ Nat.toDigits 10 seq ++ '\n' ::
    (List.range count).flatMap fun i =>
      (if seq + i = seam then "#EXT-X-DISCONTINUITY\n".toList else []) ++
        "#EXTINF:2.0,\n".toList ++ segmentFilename "" (seq + i) ++ ['\n']

/-- Session `a` is relaunched before its segment 3; session `b` is not relaunched. -/
def relaunchedAt (session : String) (n : ℕ) : ℕ := if session = "a" ∧ 3 ≤ n then 1 else 0

/-- The window slides by one segment after the relaunch, and then another session is tuned. -/
def relaunchRun (seq : ℕ) : List Act :=
  [.tune "a", .rewrite "a" (relaunchedText seq 3 3) id,
    .rewrite "a" (relaunchedText (seq + 1) 3 3) id, .tune "b", .rewrite "b" (playlistText 0 2) id]

instance (v : Viewer) (a : Act) : Decidable (FromMuxer count a ∧ Keeps count v a) :=
  instDecidableAnd

set_option maxRecDepth 2000 in
/-- The tag stands before segment 3 in both windows of the first session. -/
theorem stable_of_runs_relaunch : ∃ v,
    Runs (Viewer.step "42".toList) (fun v a => FromMuxer relaunchedAt a ∧ Keeps relaunchedAt v a)
      Viewer.new v ∧
    v.polls.map Poll.numbers = [[1, 1], [0, 1, 1], [0, 0, 1]] ∧ Stable v.polls :=
  have h : ∃ v, exec (guarded (Viewer.step "42".toList)
      fun v a => FromMuxer relaunchedAt a ∧ Keeps relaunchedAt v a) Viewer.new (relaunchRun 1) =
        some v ∧ v.polls.map Poll.numbers = [[1, 1], [0, 1, 1], [0, 0, 1]] := ⟨_, rfl, rfl⟩
  let ⟨v, hv, hnumbers⟩ := h
  have hruns := runs_of_exec_guarded hv
  ⟨v, hruns, hnumbers, stable_of_runs "42".toList hruns⟩

/-- **The window slides to the relaunch**: segment 3 has number 1, and then number 0. -/
theorem not_stable_relaunch : ∃ v,
    Runs (Viewer.step "42".toList) (fun _ a => FromMuxer relaunchedAt a) Viewer.new v ∧
    ¬ Stable v.polls :=
  have h : ∃ v p q, exec (guarded (Viewer.step "42".toList) fun _ a => FromMuxer relaunchedAt a)
      Viewer.new (relaunchRun 2) = some v ∧ (p ∈ v.polls ∧ q ∈ v.polls ∧ p.session = q.session) ∧
      (p.files[1]? = some (segmentFilename "a" 3) ∧ p.numbers[1]? = some 1) ∧
      q.files[0]? = some (segmentFilename "a" 3) ∧ q.numbers[0]? = some 0 :=
    ⟨_, _, _, rfl, ⟨.tail _ (.tail _ (.head _)), .tail _ (.head _), rfl⟩, ⟨rfl, rfl⟩, rfl, rfl⟩
  let ⟨v, p, q, hv, ⟨hp, hq, hsession⟩, hone, hzero⟩ := h
  ⟨v, runs_of_exec_guarded hv, fun hstable =>
    absurd (hstable p hp q hq hsession _ 1 0 ⟨1, hone⟩ ⟨0, hzero⟩) (by decide)⟩

end EmeraldExchange.Iptv.RemuxMap
