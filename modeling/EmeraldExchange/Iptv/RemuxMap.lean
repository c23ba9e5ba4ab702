import EmeraldExchange.Iptv.Dvr
import EmeraldExchange.Lib.Decimal
import EmeraldExchange.Lib.Runs
import EmeraldExchange.Lib.Table
import EmeraldExchange.Lib.Utf8

/-!
# The live remux index: one media sequence for one viewer

Each remux session numbers its segments from zero. A viewer who is moved from one session to
another must not see that, so every playlist is rewritten before it is served: its media sequence
is shifted past all that was served before (`Continuity`), and a
discontinuity sequence counts the moves. The rewriting is a pass over the lines of the playlist
(`rewriteRemuxManifest`).

What a client makes of the lines it gets is `mediaSequence`,
`discontinuitySequence` and `uris`. For
playlists that list segment files only (`Listed`), the whole pass is
described in these terms by `served_rewriteRemuxManifest`.
-/

namespace EmeraldExchange.Iptv.RemuxMap

abbrev Line := List Char

/-! ### The pass over the lines -/

def linesOf (text : List Char) : List Line :=
  (text.splitOn '\n').map fun l => if l.getLast? = some '\r' then l.dropLast else l

def trim (s : Line) : Line :=
  ((s.dropWhile isWhitespace).reverse.dropWhile isWhitespace).reverse

/-- `^seg_\d{5}\.ts$` -/
def isSegFile (s : Line) : Bool :=
  s.length = 12 && s.take 4 = "seg_".toList && s.drop 9 = ".ts".toList &&
    ((s.drop 4).take 5).all Char.isDigit

/-- The file that a line names: what follows its last slash, a final one aside. -/
def segOf (line : Line) : Line :=
  (((trim line).reverse.dropWhile (· = '/')).takeWhile (· ≠ '/')).reverse

def stripTag (tag : Line) (line : Line) : Option Line :=
  if tag.isPrefixOf line then some (line.drop tag.length) else none

def mediaSequenceTag : Line := "#EXT-X-MEDIA-SEQUENCE:".toList

def discontinuitySequenceTag : Line := "#EXT-X-DISCONTINUITY-SEQUENCE:".toList

/-- The line before a segment that does not continue the one before it. -/
def discontinuityTag : Line := "#EXT-X-DISCONTINUITY".toList

/-- The digits at the front, as an `i64`. -/
def parseI64 (d : Line) : Option ℤ :=
  (Decimal.read d).bind fun p => if p.1 < 2 ^ 63 then some (p.1 : ℤ) else none

/-- The media sequence of a source playlist, in the session's own numbers. -/
def localSeq (lines : List Line) : ℤ :=
  (lines.findSome? fun l => (stripTag mediaSequenceTag l).bind parseI64).getD 0

def wrap (z : ℤ) : ℤ := Int.bmod z (2 ^ 64)

theorem wrap_eq {z : ℤ} (hle : -2 ^ 63 ≤ z) (hlt : z < 2 ^ 63) : wrap z = z :=
  Int.bmod_eq_of_le (by omega) (by omega)

/-- **Client-facing media sequence** for one tuned channel and viewer. -/
structure Continuity where
  /-- The session `offset` was computed for; a change is a swap. -/
  sessionId : String
  offset : ℤ
  discontinuitySeq : ℤ
  /-- Highest client-facing sequence served (-1 = none). -/
  lastServedMax : ℤ
  deriving DecidableEq

/-- The record of a viewer who was served nothing. -/
def Continuity.new (sessionId : String) : Continuity := ⟨sessionId, 0, 0, -1⟩

/-- A swap: continue just past the highest sequence already served. -/
def Continuity.enter (c : Continuity) (sessionId : String) (seq : ℤ) : Continuity :=
  if c.sessionId ≠ sessionId then
    { c with
      sessionId := sessionId
      offset := max (wrap (wrap (c.lastServedMax + 1) - seq)) 0
      discontinuitySeq := wrap (c.discontinuitySeq + 1) }
  else c

/-- The segment addresses of an index entry. -/
abbrev SegUrls := Table Line Line

/-- A pass over the lines, as far as it has come. -/
structure Pass where
  seenSegment : Bool
  seqEmitted : Bool
  segCount : ℤ
  out : List Line
  present : List Line
  cache : Option SegUrls

structure Rewrite where
  streamId : Line
  sessionId : String
  first : ℤ
  disc : ℤ
  sign : Line → Line

/-- `encodeURIComponent`. -/
def encodeUriComponent (s : Line) : Line :=
  (Utf8.encode s).flatMap fun b =>
    let c := Char.ofNat b.toNat
    if c.isAlphanum || c ∈ "-_.!~*'()".toList then [c]
    else '%' :: ((Nat.toDigits 16 b.toNat).leftpad 2 '0').map Char.toUpper

namespace Rewrite

variable (r : Rewrite)

def tags : List Line :=
  (mediaSequenceTag ++ Decimal.intText r.first) ::
    if r.disc > 0 then [discontinuitySequenceTag ++ Decimal.intText r.disc] else []

def emitSeq (p : Pass) : Pass :=
  if p.seqEmitted then p else { p with out := p.out ++ r.tags, seqEmitted := true }

/-- The address of a segment that has none yet. -/
def mint (seg : Line) : Line :=
  '/' :: ("api/iptv/stream/live/".toList ++ r.streamId ++ "/remux/seg?t=".toList ++
    encodeUriComponent (r.sign (r.sessionId.toList ++ '/' :: seg)))

/-- The address of a segment: the cached one if there is one. -/
def url (cache : Option SegUrls) (seg : Line) : Line :=
  ((cache.bind fun c => c.lookup seg).getD (r.mint seg))

def remember (cache : Option SegUrls) (seg : Line) : Option SegUrls :=
  cache.map fun c => if (c.lookup seg).isSome then c else c.insert seg (r.mint seg)

def segment (seg : Line) (p : Pass) : Pass :=
  let p := if !p.seenSegment && (r.first > 0 || r.disc > 0) then r.emitSeq p else p
  { p with
    seenSegment := true
    segCount := wrap (p.segCount + 1)
    present := p.present ++ [seg]
    cache := r.remember p.cache seg
    out := p.out ++ [r.url p.cache seg] }

/-- **One line.** -/
def line (p : Pass) (line : Line) : Pass :=
  if !p.seenSegment && trim line = discontinuityTag then p
  else if mediaSequenceTag.isPrefixOf line then r.emitSeq p
  else if line.isEmpty || line.head? = some '#' then { p with out := p.out ++ [line] }
  else if !isSegFile (segOf line) then { p with out := p.out ++ [line] }
  else r.segment (segOf line) p

def pass (cache : Option SegUrls) (lines : List Line) : Pass :=
  lines.foldl r.line ⟨false, false, 0, [], [], cache⟩

end Rewrite

/-- What a rewriting leaves: the lines to serve, and what is kept for the next one. -/
structure Rewritten where
  out : List Line
  cont : Continuity
  cache : Option SegUrls

/-- What is kept after a pass: the highest sequence served, and the addresses of the live window. -/
def finish (c : Continuity) (first : ℤ) (p : Pass) : Rewritten where
  out := p.out
  cont :=
    if p.segCount > 0 then
      { c with lastServedMax := max c.lastServedMax (wrap (wrap (first + p.segCount) - 1)) }
    else c
  cache := p.cache.map fun c => c.retainKeys fun seg => seg ∈ p.present

@[simp] theorem finish_out (c : Continuity) (first : ℤ) (p : Pass) :
    (finish c first p).out = p.out := rfl

theorem finish_cont_sessionId (c : Continuity) (first : ℤ) (p : Pass) :
    (finish c first p).cont.sessionId = c.sessionId := by
  rw [finish]
  split <;> rfl

theorem finish_cont_discontinuitySeq (c : Continuity) (first : ℤ) (p : Pass) :
    (finish c first p).cont.discontinuitySeq = c.discontinuitySeq := by
  rw [finish]
  split <;> rfl

/-- **Rewrite ffmpeg's playlist** for the client. -/
def rewriteRemuxManifest (text streamId : List Char) (sessionId : String)
    (cont : Option Continuity) (cache : Option SegUrls) (sign : Line → Line) : Rewritten :=
  let lines := linesOf text
  let seq := localSeq lines
  let c := (cont.getD (.new sessionId)).enter sessionId seq
  let first := wrap (seq + c.offset)
  finish c first (Rewrite.pass ⟨streamId, sessionId, first, c.discontinuitySeq, sign⟩ cache lines)

/-! ### What a client makes of a playlist -/

/-- The number after a tag, in the first line that has one. -/
def tagNumber (tag : Line) (lines : List Line) : Option ℕ :=
  lines.findSome? fun l => (stripTag tag l).bind fun d => (Decimal.read d).map Prod.fst

/-- The media sequence number: of the first segment of the playlist. -/
def mediaSequence (lines : List Line) : ℕ := (tagNumber mediaSequenceTag lines).getD 0

def discontinuitySequence (lines : List Line) : ℕ :=
  (tagNumber discontinuitySequenceTag lines).getD 0

/-- A line that is neither blank nor a tag nor a comment names a segment. -/
def isUri (line : Line) : Bool := !(line.isEmpty || line.head? = some '#')

def uris (lines : List Line) : List Line := lines.filter isUri

theorem tagNumber_append (tag : Line) (lines lines' : List Line) :
    tagNumber tag (lines ++ lines') = (tagNumber tag lines).or (tagNumber tag lines') :=
  List.findSome?_append

theorem uris_append (lines lines' : List Line) :
    uris (lines ++ lines') = uris lines ++ uris lines' :=
  List.filter_append ..

theorem tagNumber_of_not_isPrefixOf {tag line : Line} (h : tag.isPrefixOf line = false) :
    tagNumber tag [line] = none := by
  have hstrip : stripTag tag line = none := by
    rw [stripTag, h]
    rfl
  simp [tagNumber, hstrip]

theorem tagNumber_of_head {tag line : Line} (htag : tag.head? = some '#')
    (hline : line.head? ≠ some '#') : tagNumber tag [line] = none := by
  refine tagNumber_of_not_isPrefixOf (Bool.eq_false_iff.mpr fun hprefix => hline ?_)
  obtain ⟨rest, rfl⟩ := List.isPrefixOf_iff_prefix.mp hprefix
  rw [List.head?_append, htag]
  rfl

theorem tagNumber_intText (tag : Line) {z : ℤ} (hz : 0 ≤ z) :
    tagNumber tag [tag ++ Decimal.intText z] = some z.toNat := by
  have hread : Decimal.read (Decimal.intText z) = some (z.natAbs, []) := by
    have := Decimal.read_text_append z.natAbs Decimal.ends_nil
    rwa [List.append_nil, ← show Decimal.intText z = Decimal.text z.natAbs from if_neg (by omega)]
      at this
  have hnat : z.natAbs = z.toNat := by omega
  simp [tagNumber, stripTag, hread, hnat]

theorem head_mediaSequenceTag : mediaSequenceTag.head? = some '#' := by decide

theorem head_discontinuitySequenceTag : discontinuitySequenceTag.head? = some '#' := by decide

theorem isUri_tag {tag : Line} (htag : tag.head? = some '#') (rest : Line) :
    isUri (tag ++ rest) = false := by
  have hhead : (tag ++ rest).head? = some '#' := by
    rw [List.head?_append, htag]
    rfl
  simp [isUri, hhead]

namespace Rewrite

variable {r : Rewrite}

theorem tagNumber_discontinuitySequence_tags (hdisc : 0 ≤ r.disc) :
    tagNumber discontinuitySequenceTag r.tags =
      if r.disc > 0 then some r.disc.toNat else none := by
  have hother : ∀ rest, tagNumber discontinuitySequenceTag [mediaSequenceTag ++ rest] = none :=
    fun rest => tagNumber_of_not_isPrefixOf rfl
  have hcons : r.tags = [mediaSequenceTag ++ Decimal.intText r.first] ++
      if r.disc > 0 then [discontinuitySequenceTag ++ Decimal.intText r.disc] else [] := rfl
  rw [hcons, tagNumber_append, hother]
  split
  · rw [tagNumber_intText _ hdisc]
    rfl
  · rfl

theorem tagNumber_tags (hfirst : 0 ≤ r.first) (hdisc : 0 ≤ r.disc) :
    tagNumber mediaSequenceTag r.tags = some r.first.toNat ∧
      tagNumber discontinuitySequenceTag r.tags =
        if r.disc > 0 then some r.disc.toNat else none := by
  have hcons : r.tags = [mediaSequenceTag ++ Decimal.intText r.first] ++
      if r.disc > 0 then [discontinuitySequenceTag ++ Decimal.intText r.disc] else [] := rfl
  refine ⟨?_, tagNumber_discontinuitySequence_tags hdisc⟩
  rw [hcons, tagNumber_append, tagNumber_intText _ hfirst]
  rfl

theorem uris_tags : uris r.tags = [] := by
  rw [uris, List.filter_eq_nil_iff]
  intro line hline
  rw [tags, List.mem_cons] at hline
  rcases hline with rfl | hline
  · simp [isUri_tag head_mediaSequenceTag]
  · split at hline
    · obtain rfl := List.mem_singleton.mp hline
      simp [isUri_tag head_discontinuitySequenceTag]
    · exact absurd hline (by simp)

/-- Whether every cached address begins as a path does. -/
def Paths (cache : Option SegUrls) : Prop :=
  ∀ c, cache = some c → ∀ url ∈ c.values, url.head? = some '/'

theorem head_mint (r : Rewrite) (seg : Line) : (r.mint seg).head? = some '/' := rfl

theorem head_url {cache : Option SegUrls} (h : Paths cache) (seg : Line) :
    (r.url cache seg).head? = some '/' := by
  unfold url
  cases hcache : cache.bind fun c => c.lookup seg with
  | none => exact head_mint r seg
  | some url =>
    obtain ⟨c, hc, hlookup⟩ := Option.bind_eq_some_iff.mp hcache
    exact h c hc url (Table.mem_values_of_lookup hlookup)

theorem isUri_url {cache : Option SegUrls} (h : Paths cache) (seg : Line) :
    isUri (r.url cache seg) = true := by
  have hhead := head_url (r := r) h seg
  cases hcs : r.url cache seg with
  | nil => simp [hcs] at hhead
  | cons c cs =>
    obtain rfl : c = '/' := by simpa [hcs] using hhead
    simp [isUri]

theorem tagNumber_url {cache : Option SegUrls} (h : Paths cache) (seg : Line) {tag : Line}
    (htag : tag.head? = some '#') : tagNumber tag [r.url cache seg] = none := by
  refine tagNumber_of_head htag ?_
  rw [head_url h seg]
  decide

theorem paths_remember {cache : Option SegUrls} (h : Paths cache) (seg : Line) :
    Paths (r.remember cache seg) := by
  rintro c hc url hurl
  obtain ⟨c₀, hc₀, rfl⟩ := Option.map_eq_some_iff.mp hc
  split at hurl
  · exact h c₀ hc₀ url hurl
  · rcases Table.mem_values_insert hurl with rfl | hurl
    · exact head_mint r seg
    · exact h c₀ hc₀ url hurl

/-- **How far a pass has come** after some lines. -/
structure Passed (r : Rewrite) (lines : List Line) (p : Pass) : Prop where
  seen : p.seenSegment = true ↔ uris lines ≠ []
  count : p.segCount = (uris lines).length
  length_uris : (uris p.out).length = (uris lines).length
  number : tagNumber mediaSequenceTag p.out = if p.seqEmitted then some r.first.toNat else none
  bumps : tagNumber discontinuitySequenceTag p.out =
    if p.seqEmitted && r.disc > 0 then some r.disc.toNat else none
  emitted : p.seenSegment = true → 0 < r.first ∨ 0 < r.disc → p.seqEmitted = true
  paths : Paths p.cache

theorem passed_nil {cache : Option SegUrls} (h : Paths cache) :
    Passed r [] ⟨false, false, 0, [], [], cache⟩ :=
  ⟨by simp [uris], rfl, rfl, rfl, rfl, by simp, h⟩

theorem Passed.emitSeq {lines : List Line} {p : Pass} (h : Passed r lines p)
    (hfirst : 0 ≤ r.first) (hdisc : 0 ≤ r.disc) :
    Passed r lines (r.emitSeq p) ∧ (r.emitSeq p).seqEmitted = true := by
  unfold Rewrite.emitSeq
  split
  · next hemitted => exact ⟨h, hemitted⟩
  · next hemitted =>
    obtain ⟨hnumber, hbumps⟩ := tagNumber_tags hfirst hdisc
    refine ⟨⟨h.seen, h.count, ?_, ?_, ?_, fun _ _ => rfl, h.paths⟩, rfl⟩
    · simp [uris_append, uris_tags, h.length_uris]
    · rw [tagNumber_append, h.number, if_neg hemitted, hnumber]
      rfl
    · rw [tagNumber_append, h.bumps, hbumps]
      simp [hemitted]

theorem Passed.keep {lines : List Line} {p : Pass} {line : Line} (h : Passed r lines p)
    (huri : isUri line = false) (hnumber : tagNumber mediaSequenceTag [line] = none)
    (hbumps : tagNumber discontinuitySequenceTag [line] = none) :
    Passed r (lines ++ [line]) { p with out := p.out ++ [line] } := by
  have huris : uris [line] = [] := by simp [uris, huri]
  refine ⟨?_, ?_, ?_, ?_, ?_, h.emitted, h.paths⟩
  · simpa [uris_append, huris] using h.seen
  · simpa [uris_append, huris] using h.count
  · simpa [uris_append, huris] using h.length_uris
  · rw [tagNumber_append, h.number, hnumber, Option.or_none]
  · rw [tagNumber_append, h.bumps, hbumps, Option.or_none]

theorem Passed.skip {lines : List Line} {p : Pass} {line : Line} (h : Passed r lines p)
    (huri : isUri line = false) : Passed r (lines ++ [line]) p := by
  have huris : uris [line] = [] := by simp [uris, huri]
  refine ⟨?_, ?_, ?_, h.number, h.bumps, h.emitted, h.paths⟩
  · simpa [uris_append, huris] using h.seen
  · simpa [uris_append, huris] using h.count
  · simpa [uris_append, huris] using h.length_uris

theorem Passed.segment {lines : List Line} {p : Pass} {line : Line} (h : Passed r lines p)
    (hfirst : 0 ≤ r.first) (hdisc : 0 ≤ r.disc) (huri : isUri line = true)
    (hcount : (uris lines).length + 1 < 2 ^ 63) (seg : Line) :
    Passed r (lines ++ [line]) (r.segment seg p) := by
  have huris : uris [line] = [line] := by simp [uris, huri]
  -- the tags are out before it, unless there is nothing to say
  obtain ⟨p', hp', h', htags⟩ : ∃ p', (if !p.seenSegment && (r.first > 0 || r.disc > 0) then
      r.emitSeq p else p) = p' ∧ Passed r lines p' ∧
      (0 < r.first ∨ 0 < r.disc → p'.seqEmitted = true) := by
    refine ⟨_, rfl, ?_⟩
    split
    · obtain ⟨hpassed, hemitted⟩ := h.emitSeq hfirst hdisc
      exact ⟨hpassed, fun _ => hemitted⟩
    · next hnot =>
      refine ⟨h, fun hpos => h.emitted ?_ hpos⟩
      by_contra hseen
      exact hnot (by simpa [hseen] using hpos)
  have hout : uris [r.url p'.cache seg] = [r.url p'.cache seg] := by
    simp [uris, isUri_url h'.paths]
  unfold Rewrite.segment
  rw [hp']
  refine ⟨?_, ?_, ?_, ?_, ?_, fun _ => htags, paths_remember h'.paths seg⟩
  · simp [uris_append, huris]
  · have hwrap := wrap_eq (z := ((uris lines).length : ℤ) + 1) (by omega) (by omega)
    simp [uris_append, huris, hwrap, h'.count]
  · simp [uris_append, huris, hout, h'.length_uris]
  · rw [tagNumber_append, h'.number, tagNumber_url h'.paths seg head_mediaSequenceTag,
      Option.or_none]
  · rw [tagNumber_append, h'.bumps, tagNumber_url h'.paths seg head_discontinuitySequenceTag,
      Option.or_none]

end Rewrite

/-! ### What a rewriting serves -/

/-- **A playlist that is rewritten as it should be**: it lists segments, each of them a segment
file, and has no discontinuity sequence of its own. -/
structure Listed (lines : List Line) : Prop where
  some : uris lines ≠ []
  segFiles : ∀ l ∈ uris lines, isSegFile (segOf l) = true
  bare : tagNumber discontinuitySequenceTag lines = none

instance (lines : List Line) : Decidable (Listed lines) :=
  decidable_of_iff (uris lines ≠ [] ∧ (∀ l ∈ uris lines, isSegFile (segOf l) = true) ∧
    tagNumber discontinuitySequenceTag lines = none)
    ⟨fun h => ⟨h.1, h.2.1, h.2.2⟩, fun h => ⟨h.some, h.segFiles, h.bare⟩⟩

/-- The numbers of a playlist, and those that it may get, are 64-bit numbers. -/
structure Fits (c : Continuity) (lines : List Line) : Prop where
  localTop : (mediaSequence lines : ℤ) + (uris lines).length < 2 ^ 63
  shiftedTop : (mediaSequence lines : ℤ) + c.offset + (uris lines).length < 2 ^ 63
  nextTop : c.lastServedMax + 1 + (uris lines).length < 2 ^ 63
  bumps : c.discontinuitySeq + 1 < 2 ^ 63

instance (c : Continuity) (lines : List Line) : Decidable (Fits c lines) :=
  decidable_of_iff ((mediaSequence lines : ℤ) + (uris lines).length < 2 ^ 63 ∧
    (mediaSequence lines : ℤ) + c.offset + (uris lines).length < 2 ^ 63 ∧
    c.lastServedMax + 1 + (uris lines).length < 2 ^ 63 ∧ c.discontinuitySeq + 1 < 2 ^ 63)
    ⟨fun h => ⟨h.1, h.2.1, h.2.2.1, h.2.2.2⟩,
      fun h => ⟨h.localTop, h.shiftedTop, h.nextTop, h.bumps⟩⟩

namespace Rewrite

variable {r : Rewrite}

theorem Passed.mediaSequence_out {lines : List Line} {p : Pass} (h : Passed r lines p)
    (hsome : uris lines ≠ []) : mediaSequence p.out = r.first.toNat := by
  rw [mediaSequence, h.number]
  split
  · rfl
  · next hnot =>
    have hzero : ¬ 0 < r.first := fun hpos => hnot (h.emitted (h.seen.mpr hsome) (Or.inl hpos))
    show 0 = r.first.toNat
    omega

theorem Passed.discontinuitySequence_out {lines : List Line} {p : Pass} (h : Passed r lines p)
    (hsome : uris lines ≠ []) : discontinuitySequence p.out = r.disc.toNat := by
  rw [discontinuitySequence, h.bumps]
  split
  · rfl
  · next hnot =>
    have hzero : ¬ 0 < r.disc := fun hpos =>
      hnot (by simp [h.emitted (h.seen.mpr hsome) (Or.inr hpos), hpos])
    show 0 = r.disc.toNat
    omega

theorem isSegFile_segOf_discontinuity {line : Line}
    (h : trim line = discontinuityTag) : isSegFile (segOf line) = false := by
  rw [segOf, h]
  decide

/-- **One line of a listed playlist.** -/
theorem Passed.line {lines : List Line} {p : Pass} {line : Line} (h : Passed r lines p)
    (hfirst : 0 ≤ r.first) (hdisc : 0 ≤ r.disc) (hcount : (uris (lines ++ [line])).length < 2 ^ 63)
    (hseg : isUri line = true → isSegFile (segOf line) = true)
    (hbare : tagNumber discontinuitySequenceTag [line] = none) :
    Passed r (lines ++ [line]) (r.line p line) := by
  unfold Rewrite.line
  split
  · next hdrop =>
    refine h.skip (Bool.eq_false_iff.mpr fun huri => ?_)
    have htrim : trim line = discontinuityTag := by
      simpa using (Bool.and_eq_true_iff.mp hdrop).2
    rw [isSegFile_segOf_discontinuity htrim] at hseg
    exact absurd (hseg huri) (by decide)
  split
  · next hprefix =>
    obtain ⟨rest, rfl⟩ := List.isPrefixOf_iff_prefix.mp hprefix
    exact (h.emitSeq hfirst hdisc).1.skip (isUri_tag head_mediaSequenceTag rest)
  next hprefix =>
  split
  · next hcomment =>
    have huri : isUri line = false := by
      rw [isUri, hcomment]
      rfl
    exact h.keep huri (tagNumber_of_not_isPrefixOf (Bool.eq_false_iff.mpr hprefix)) hbare
  next hcomment =>
  have huri : isUri line = true := by
    rw [isUri, Bool.eq_false_iff.mpr hcomment]
    rfl
  rw [hseg huri]
  have hone : uris [line] = [line] := by simp [uris, huri]
  rw [uris_append, hone, List.length_append, List.length_singleton] at hcount
  exact h.segment hfirst hdisc huri hcount (segOf line)

/-- **The rule of the pass**: what holds before the first line, and is kept by each line, holds
after the last. -/
theorem pass_induction {P : List Line → Pass → Prop} {cache : Option SegUrls} {lines : List Line}
    (hnil : P [] ⟨false, false, 0, [], [], cache⟩)
    (hline : ∀ done line rest p, done ++ [line] ++ rest = lines → P done p →
      P (done ++ [line]) (r.line p line)) : P lines (r.pass cache lines) := by
  have hall : ∀ rest done p, done ++ rest = lines → P done p →
      P lines (rest.foldl r.line p) := by
    intro rest
    induction rest with
    | nil =>
      rintro done p rfl hp
      simpa using hp
    | cons line rest ih =>
      intro done p hlines hp
      have hsplit : done ++ [line] ++ rest = lines := by rw [← hlines]; simp
      exact ih (done ++ [line]) _ hsplit (hline done line rest p hsplit hp)
  exact hall lines [] _ rfl hnil

theorem tagNumber_line {tag line : Line} {done rest lines : List Line}
    (hsplit : done ++ [line] ++ rest = lines) (h : tagNumber tag lines = none) :
    tagNumber tag [line] = none := by
  have hmem : line ∈ lines := hsplit ▸ by simp
  simp [tagNumber, List.findSome?_eq_none_iff.mp h line hmem]

/-- **A listed playlist**, line by line. -/
theorem passed_pass {cache : Option SegUrls} {lines : List Line} (hfirst : 0 ≤ r.first)
    (hdisc : 0 ≤ r.disc) (hcount : (uris lines).length < 2 ^ 63) (hlisted : Listed lines)
    (hpaths : Paths cache) : Passed r lines (r.pass cache lines) := by
  refine pass_induction (passed_nil hpaths) fun done line rest p hsplit hp => ?_
  have hseg : isUri line = true → isSegFile (segOf line) = true := fun huri =>
    hlisted.segFiles line (List.mem_filter.mpr ⟨hsplit ▸ by simp, huri⟩)
  have hlen : (uris (done ++ [line])).length ≤ (uris lines).length := by
    rw [← hsplit, uris_append (done ++ [line])]
    simp
  exact hp.line hfirst hdisc (by omega) hseg (tagNumber_line hsplit hlisted.bare)

end Rewrite

theorem localSeq_eq {lines : List Line} (h : (mediaSequence lines : ℤ) < 2 ^ 63) :
    localSeq lines = mediaSequence lines := by
  induction lines with
  | nil => rfl
  | cons l lines ih =>
    unfold localSeq mediaSequence tagNumber at *
    rw [List.findSome?_cons] at h ⊢
    rw [List.findSome?_cons]
    cases hstrip : stripTag mediaSequenceTag l with
    | none =>
      simp only [hstrip, Option.bind_none] at h ⊢
      exact ih h
    | some d =>
      cases hread : Decimal.read d with
      | none =>
        simp only [hstrip, Option.bind_some, hread, Option.map_none, parseI64,
          Option.bind_none] at h ⊢
        exact ih h
      | some n =>
        simp only [hstrip, Option.bind_some, hread, Option.map_some, Option.getD_some] at h ⊢
        have hparse : parseI64 d = some (n.1 : ℤ) := by
          rw [parseI64, hread]
          exact if_pos (by omega)
        rw [hparse]
        rfl

/-- What holds of a record of what was served: its counters do not go below their start. -/
structure Continuity.Started (c : Continuity) : Prop where
  offset : 0 ≤ c.offset
  discontinuitySeq : 0 ≤ c.discontinuitySeq
  lastServedMax : -1 ≤ c.lastServedMax

theorem Continuity.started_new (sessionId : String) : (new sessionId).Started :=
  ⟨le_refl (0 : ℤ), le_refl (0 : ℤ), le_refl (-1 : ℤ)⟩

theorem Continuity.enter_eq {c : Continuity} (hc : c.Started) (sessionId : String)
    {lines : List Line} (hfits : Fits c lines) :
    c.enter sessionId (mediaSequence lines) =
      if c.sessionId ≠ sessionId then
        ⟨sessionId, max (c.lastServedMax + 1 - mediaSequence lines) 0, c.discontinuitySeq + 1,
          c.lastServedMax⟩
      else c := by
  obtain ⟨-, hdisc, hlast⟩ := hc
  obtain ⟨hlocal, -, hnext, hbumps⟩ := hfits
  have h₁ := wrap_eq (z := c.lastServedMax + 1) (by omega) (by omega)
  have h₂ := wrap_eq (z := c.lastServedMax + 1 - mediaSequence lines) (by omega) (by omega)
  have h₃ := wrap_eq (z := c.discontinuitySeq + 1) (by omega) (by omega)
  rw [enter, h₁, h₂, h₃]

@[simp] theorem Continuity.sessionId_enter (c : Continuity) (sessionId : String) (seq : ℤ) :
    (c.enter sessionId seq).sessionId = sessionId := by
  unfold enter
  split
  · rfl
  · next hsame => exact not_not.mp hsame

theorem Continuity.Started.enter {c : Continuity} (hc : c.Started) (sessionId : String)
    {lines : List Line} (hfits : Fits c lines) :
    (c.enter sessionId (mediaSequence lines)).Started ∧
      (c.enter sessionId (mediaSequence lines)).lastServedMax = c.lastServedMax ∧
      (mediaSequence lines : ℤ) + (c.enter sessionId (mediaSequence lines)).offset +
        (uris lines).length < 2 ^ 63 := by
  rw [c.enter_eq hc sessionId hfits]
  obtain ⟨hoffset, hdisc, hlast⟩ := id hc
  obtain ⟨hlocal, hshifted, hnext, hbumps⟩ := hfits
  split
  · refine ⟨⟨?_, ?_, hlast⟩, rfl, ?_⟩ <;> dsimp only <;> omega
  · exact ⟨hc, rfl, hshifted⟩

/-- **What a rewriting serves**, in a client's reading: as many segments as the source lists,
numbered from the source's number and the offset of its session. -/
theorem served_rewriteRemuxManifest {text : List Char} (streamId : List Char)
    {sessionId : String} {cont : Option Continuity} {cache : Option SegUrls}
    (sign : Line → Line) {c : Continuity} (hcont : cont.getD (.new sessionId) = c)
    (hstarted : c.Started)
    (hlisted : Listed (linesOf text)) (hfits : Fits c (linesOf text))
    (hpaths : Rewrite.Paths cache) :
    let w := rewriteRemuxManifest text streamId sessionId cont cache sign
    let c' := c.enter sessionId (mediaSequence (linesOf text))
    (uris w.out).length = (uris (linesOf text)).length ∧
      (mediaSequence w.out : ℤ) = mediaSequence (linesOf text) + c'.offset ∧
      (discontinuitySequence w.out : ℤ) = c'.discontinuitySeq ∧
      w.cont = ⟨c'.sessionId, c'.offset, c'.discontinuitySeq, max c.lastServedMax
        (mediaSequence (linesOf text) + c'.offset + (uris (linesOf text)).length - 1)⟩ ∧
      Rewrite.Paths w.cache := by
  intro w c'
  -- the entered session's numbers are 64-bit numbers too
  obtain ⟨⟨hoffset', hdisc', -⟩, hlast'', htop'⟩ := hstarted.enter sessionId hfits
  have hlast := hstarted.lastServedMax
  have hlocal := hfits.localTop
  have hpos : 0 < (uris (linesOf text)).length := List.length_pos_iff.mpr hlisted.some
  have hseq : localSeq (linesOf text) = mediaSequence (linesOf text) := localSeq_eq (by omega)
  change 0 ≤ c'.offset at hoffset'
  change 0 ≤ c'.discontinuitySeq at hdisc'
  change c'.lastServedMax = _ at hlast''
  change _ + c'.offset + _ < _ at htop'
  let r : Rewrite := ⟨streamId, sessionId, mediaSequence (linesOf text) + c'.offset,
    c'.discontinuitySeq, sign⟩
  have hpassed : Rewrite.Passed r (linesOf text) (r.pass cache (linesOf text)) :=
    Rewrite.passed_pass (show 0 ≤ _ + c'.offset by omega) hdisc' (by omega) hlisted hpaths
  have hfirst := wrap_eq (z := mediaSequence (linesOf text) + c'.offset) (by omega) (by omega)
  have hw : w = finish c' r.first (r.pass cache (linesOf text)) := by
    show rewriteRemuxManifest text streamId sessionId cont cache sign = _
    simp only [rewriteRemuxManifest, hcont, hseq]
    rw [show c.enter sessionId (mediaSequence (linesOf text)) = c' from rfl, hfirst]
  refine ⟨?_, ?_, ?_, ?_, ?_⟩
  · rw [hw]
    exact hpassed.length_uris
  · rw [hw, finish_out, hpassed.mediaSequence_out hlisted.some]
    exact Int.toNat_of_nonneg (show 0 ≤ _ + c'.offset by omega)
  · rw [hw, finish_out, hpassed.discontinuitySequence_out hlisted.some]
    exact Int.toNat_of_nonneg hdisc'
  · have hcount := hpassed.count
    have hlast := wrap_eq (z := r.first + (uris (linesOf text)).length)
      (show _ ≤ _ + c'.offset + _ by omega) htop'
    have hlast' := wrap_eq (z := r.first + (uris (linesOf text)).length - 1)
      (show _ ≤ _ + c'.offset + _ - 1 by omega) (show _ + c'.offset + _ - 1 < _ by omega)
    rw [hw, finish, hcount, hlast, hlast', hlast'', if_pos (by omega)]
  · rw [hw]
    rintro cache' hcache' url hurl
    obtain ⟨cache, hcache, rfl⟩ := Option.map_eq_some_iff.mp hcache'
    exact hpassed.paths cache hcache url (Table.mem_values_of_retainKeys hurl)

end EmeraldExchange.Iptv.RemuxMap
