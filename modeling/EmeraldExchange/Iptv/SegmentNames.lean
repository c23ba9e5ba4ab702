import EmeraldExchange.Iptv.RemuxContinuity

/-!
# The names of segments

ffmpeg numbers the segments of a session (`segmentFilename`). Four
places of the live remux read these names back: the test of a file name, the resource of a segment
token, the rewriting of a playlist and the count of a playlist that is still growing. All of them
rest on one pattern of exactly five digits, so they agree with each other on every name, and with
ffmpeg up to segment 99999 (`agreed_iff`).
-/

namespace EmeraldExchange.Iptv.RemuxMap

/-! ### The places that read a name -/

/-- **The session and the segment of a token's resource**, which is split at its last slash. -/
def segmentResource (rid : Line) : Option (Line × Line) :=
  let seg := (rid.reverse.takeWhile (· ≠ '/')).reverse
  match rid.reverse.dropWhile (· ≠ '/') with
  | [] => none
  | _ :: session => if session ≠ [] ∧ isSegFile seg then some (session.reverse, seg) else none

/-- The lines of a text, as `str::lines` has them: a line end ends the line before it, and a text
that ends with one has no line after it. -/
def textLines (text : List Char) : List Line :=
  let parts := text.splitOn '\n'
  (parts.dropLast.map fun l => if l.getLast? = some '\r' then l.dropLast else l) ++
    parts.getLast?.toList.filter (· ≠ [])

def listedSegments (text : List Char) : List Line := ((textLines text).map trim).filter isSegFile

/-- **A playlist is ready** once it lists enough segments. A file that cannot be read is not. -/
def manifestReady (file : Option (List Char)) (min : ℕ) : Bool :=
  file.any fun text => (listedSegments text)[min - 1]?.isSome

/-- **The names that ffmpeg gives to segments.** -/
def Numbered (s : Line) : Prop := ∃ n, s = segmentFilename "" n

/-! ### Five digits -/

theorem isSegFile_iff_digits {s : Line} : isSegFile s = true ↔
    ∃ ds : Line, ds.length = 5 ∧ ds.all Char.isDigit = true ∧
      s = "seg_".toList ++ ds ++ ".ts".toList := by
  constructor
  · intro h
    simp only [isSegFile, Bool.and_eq_true, decide_eq_true_eq] at h
    obtain ⟨⟨⟨hlength, hhead⟩, hlast⟩, hdigits⟩ := h
    refine ⟨(s.drop 4).take 5, by simp [hlength], hdigits, ?_⟩
    calc s = s.take 4 ++ ((s.drop 4).take 5 ++ (s.drop 4).drop 5) := by
          rw [List.take_append_drop, List.take_append_drop]
      _ = _ := by rw [List.drop_drop, hhead, hlast, List.append_assoc]
  · rintro ⟨ds, hlength, hdigits, rfl⟩
    simp [isSegFile, hlength, hdigits]

/-- **Digits are their number, written with zeros in front.** -/
theorem leftpad_text_ofDigitChars {ds : Line} (hne : ds ≠ []) (h : ds.all Char.isDigit = true) :
    (Nat.toDigits 10 (Nat.ofDigitChars 10 ds 0)).leftpad ds.length '0' = ds := by
  have hwidth : (Nat.toDigits 10 (Nat.ofDigitChars 10 ds 0)).length ≤ ds.length :=
    (Nat.length_toDigits_le_iff (by decide) (List.length_pos_iff.mpr hne)).mpr
      (Decimal.ofDigitChars_lt h)
  refine Decimal.digits_unique ?_ ?_ h ?_
  · rw [List.length_leftpad]
    omega
  · rw [List.leftpad, List.all_append, Bool.and_eq_true, List.all_eq_true, List.all_eq_true]
    refine ⟨fun c hc => ?_, fun c hc => Decimal.isDigit_of_mem_text hc⟩
    obtain rfl := List.eq_of_mem_replicate hc
    rfl
  · rw [List.leftpad, Nat.ofDigitChars_append, Nat.ofDigitChars_replicate_zero, Nat.mul_zero,
      Nat.ofDigitChars_ten_toDigits]

/-- **The segment files are the first hundred thousand segments.** -/
theorem isSegFile_iff {s : Line} :
    isSegFile s = true ↔ ∃ n < 100000, s = segmentFilename "" n := by
  rw [isSegFile_iff_digits]
  constructor
  · rintro ⟨ds, hlength, hdigits, rfl⟩
    have hne : ds ≠ [] := List.ne_nil_of_length_eq_add_one hlength
    refine ⟨Nat.ofDigitChars 10 ds 0, ?_, ?_⟩
    · have hlt := Decimal.ofDigitChars_lt hdigits
      rw [hlength] at hlt
      exact hlt
    · rw [segmentFilename, ← hlength, leftpad_text_ofDigitChars hne hdigits]
  · rintro ⟨n, hn, rfl⟩
    have hwidth : (Nat.toDigits 10 n).length ≤ 5 :=
      (Nat.length_toDigits_le_iff (by decide) (by decide)).mpr hn
    refine ⟨(Nat.toDigits 10 n).leftpad 5 '0', by rw [List.length_leftpad]; omega, ?_, rfl⟩
    rw [List.leftpad, List.all_append, Bool.and_eq_true, List.all_eq_true, List.all_eq_true]
    refine ⟨fun c hc => ?_, fun c hc => Decimal.isDigit_of_mem_text hc⟩
    obtain rfl := List.eq_of_mem_replicate hc
    rfl

/-! ### Each place reads the same names -/

theorem slash_notMem_of_isSegFile {s : Line} (h : isSegFile s = true) : '/' ∉ s := by
  obtain ⟨ds, -, hdigits, rfl⟩ := isSegFile_iff_digits.mp h
  intro hmem
  rcases List.mem_append.mp hmem with hmem | hmem
  · rcases List.mem_append.mp hmem with hmem | hmem
    · exact absurd hmem (by decide)
    · exact absurd (List.all_eq_true.mp hdigits _ hmem) (by decide)
  · exact absurd hmem (by decide)

/-- **The resource of a segment token** is a session and a segment file. -/
theorem segmentResource_eq_some {rid session seg : Line} :
    segmentResource rid = some (session, seg) ↔
      rid = session ++ '/' :: seg ∧ session ≠ [] ∧ isSegFile seg = true := by
  constructor
  · intro h
    have hsplit : rid.reverse =
        rid.reverse.takeWhile (· ≠ '/') ++ rid.reverse.dropWhile (· ≠ '/') :=
      List.takeWhile_append_dropWhile.symm
    rw [segmentResource] at h
    split at h
    · cases h
    next c rest hrest =>
    split at h
    next hok =>
      obtain ⟨rfl, rfl⟩ := Prod.mk.inj (Option.some.inj h)
      obtain rfl : c = '/' := by
        have hhead := List.head?_dropWhile_not (· ≠ '/') rid.reverse
        rw [hrest] at hhead
        simpa using hhead
      refine ⟨?_, by simpa using hok.1, hok.2⟩
      rw [hrest] at hsplit
      have hrid := congrArg List.reverse hsplit
      simpa using hrid
    · cases h
  · rintro ⟨rfl, hsession, hseg⟩
    have hslash := slash_notMem_of_isSegFile hseg
    have hall : ∀ c ∈ seg.reverse, decide (c ≠ '/') = true := by
      rintro c hc
      rw [List.mem_reverse] at hc
      exact decide_eq_true fun h => hslash (h ▸ hc)
    have hrev : (session ++ '/' :: seg).reverse = seg.reverse ++ '/' :: session.reverse := by simp
    rw [segmentResource, hrev, List.takeWhile_append_of_pos hall, List.dropWhile_append_of_pos hall]
    simp [hsession, hseg]

namespace Rewrite

variable {r : Rewrite}

theorem present_emitSeq (p : Pass) : (r.emitSeq p).present = p.present := by
  rw [emitSeq]
  split <;> rfl

theorem present_segment (seg : Line) (p : Pass) :
    (r.segment seg p).present = p.present ++ [seg] := by
  rw [segment]
  dsimp only
  split
  · rw [present_emitSeq]
  · rfl

theorem present_line (p : Pass) (line : Line) :
    (r.line p line).present = p.present ++ ((uris [line]).map segOf).filter isSegFile := by
  have hother : isUri line = false →
      p.present = p.present ++ ((uris [line]).map segOf).filter isSegFile := by
    intro huri
    simp [uris, huri]
  have hnot : isSegFile (segOf line) = false →
      p.present = p.present ++ ((uris [line]).map segOf).filter isSegFile := by
    intro hseg
    by_cases huri : isUri line = true
    · simp [uris, huri, hseg]
    · exact hother (Bool.eq_false_iff.mpr huri)
  rw [Rewrite.line]
  split
  · next hdrop =>
    have htrim : trim line = discontinuityTag := by
      simpa using (Bool.and_eq_true_iff.mp hdrop).2
    exact hnot (isSegFile_segOf_discontinuity htrim)
  split
  · next htag =>
    obtain ⟨rest, rfl⟩ := List.isPrefixOf_iff_prefix.mp htag
    rw [present_emitSeq]
    exact hother (isUri_tag head_mediaSequenceTag rest)
  split
  · next hcomment =>
    refine hother ?_
    rw [isUri, hcomment]
    rfl
  next hcomment =>
  split
  · next hseg => exact hnot (by simpa using hseg)
  · next hseg =>
    have huri : isUri line = true := by
      rw [isUri, Bool.eq_false_iff.mpr hcomment]
      rfl
    have hseg : isSegFile (segOf line) = true := by simpa using hseg
    rw [present_segment]
    simp [uris, huri, hseg]

/-- **The segments that are rewritten**: the segment files among the names of the playlist. -/
theorem present_pass (cache : Option SegUrls) (lines : List Line) :
    (r.pass cache lines).present = ((uris lines).map segOf).filter isSegFile := by
  refine pass_induction (P := fun done p => p.present = ((uris done).map segOf).filter isSegFile)
    rfl fun done line rest p _ hp => ?_
  rw [present_line, hp, uris_append, List.map_append, List.filter_append]

end Rewrite

/-! ### The four places and ffmpeg -/

/-- **All four places agree with ffmpeg on a name**: they take it for a segment if and only if it
is the name of one. -/
structure Agreed (s : Line) : Prop where
  file : isSegFile s = true ↔ Numbered s
  /-- As the segment of a token's resource. -/
  resource : ∀ session, session ≠ [] →
    (segmentResource (session ++ '/' :: s) = some (session, s) ↔ Numbered s)
  /-- As the name in a line of a playlist that is rewritten. -/
  rewritten : ∀ (r : Rewrite) cache text, s ∈ (uris (linesOf text)).map segOf →
    (s ∈ (r.pass cache (linesOf text)).present ↔ Numbered s)
  /-- As a line of a playlist whose segments are counted. -/
  counted : ∀ text, s ∈ (textLines text).map trim → (s ∈ listedSegments text ↔ Numbered s)

/-- **The places agree with each other**, so all of them agree with ffmpeg where the test does. -/
theorem agreed_iff_file {s : Line} : Agreed s ↔ (isSegFile s = true ↔ Numbered s) := by
  constructor
  · exact Agreed.file
  · intro h
    refine ⟨h, fun session hsession => ?_, fun r cache text hnamed => ?_, fun text hline => ?_⟩
    · rw [segmentResource_eq_some, ← h]
      exact ⟨fun hs => hs.2.2, fun hs => ⟨rfl, hsession, hs⟩⟩
    · rw [Rewrite.present_pass, List.mem_filter, ← h]
      exact ⟨And.right, And.intro hnamed⟩
    · rw [listedSegments, List.mem_filter, ← h]
      exact ⟨And.right, And.intro hline⟩

/-- **The places agree with ffmpeg on all names but those of segments from 100000 on.** -/
theorem agreed_iff (s : Line) : Agreed s ↔ ∀ n, s = segmentFilename "" n → n < 100000 := by
  rw [agreed_iff_file, isSegFile_iff]
  constructor
  · rintro h n rfl
    obtain ⟨m, hm, heq⟩ := h.mpr ⟨n, rfl⟩
    by_contra hn
    -- a number of at most five digits has another width than one of more
    have hlength := congrArg List.length heq
    have hshort : (Nat.toDigits 10 m).length ≤ 5 :=
      (Nat.length_toDigits_le_iff (by decide) (by decide)).mpr hm
    have hlong : ¬ (Nat.toDigits 10 n).length ≤ 5 := fun hle =>
      hn ((Nat.length_toDigits_le_iff (by decide) (by decide)).mp hle)
    simp only [segmentFilename, List.length_append, List.length_leftpad] at hlength
    omega
  · intro h
    constructor
    · rintro ⟨n, -, rfl⟩
      exact ⟨n, rfl⟩
    · rintro ⟨n, rfl⟩
      exact ⟨n, h n rfl, rfl⟩

/-- **Segment 100000** is no segment file, no resource of a token and no segment of a playlist. -/
theorem not_agreed_sixDigits :
    isSegFile (segmentFilename "" 100000) = false ∧
      segmentResource ("remux:1/".toList ++ segmentFilename "" 100000) = none ∧
      (listedSegments (segmentFilename "" 99999 ++ '\n' :: segmentFilename "" 100000)).length = 1 ∧
      ¬ ∀ s, Agreed s := by
  have hfile : isSegFile (segmentFilename "" 100000) = false := by decide
  refine ⟨hfile, by decide, by decide, fun h => ?_⟩
  have hnumbered := (h (segmentFilename "" 100000)).file.mpr ⟨100000, rfl⟩
  rw [hfile] at hnumbered
  cases hnumbered

end EmeraldExchange.Iptv.RemuxMap
