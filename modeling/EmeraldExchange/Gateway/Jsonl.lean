import EmeraldExchange.Lib.Utf8
import EmeraldExchange.Lib.Words
import Mathlib.Data.PNat.Defs

/-!
# Append-only logs

A log is a file of lines, of which the newest is the last. Once the file is large it is renamed over
the log of before, and a new one is begun. A reader walks a file back from its end, a block at a
time, until it has as many lines as it wants; a line that crosses a boundary of two blocks is put
together before it is decoded. So it reads the last lines of the file, whatever the blocks
(`readTail_eq`).

The newest events of a log are looked for among its newest lines. A line that is no event takes the
place of one, and the rotated file is asked for what is missing, so that an older event may be
returned in place of a newer one (`not_newest_malformed`). The events
are the newest exactly when each file's newest lines are events, or no older line of it is one
(`recent_iff`).
-/

namespace EmeraldExchange.Gateway.Jsonl

abbrev File := Option (List UInt8)

def newline : UInt8 := 10

def chunk : ℕ := 64 * 1024

/-- `String::from_utf8_lossy` -/
def text (piece : List UInt8) : String := String.ofList (Utf8.lossy piece)

/-- Take pieces that are not empty, until there are enough lines. -/
def takeLines (limit : ℕ) : List (List UInt8) → List String → List String
  | [], lines => lines
  | piece :: pieces, lines =>
    if limit ≤ lines.length then lines
    else takeLines limit pieces (if piece.isEmpty then lines else lines ++ [text piece])

/-- **Walk back, a block at a time**: where the walk has come to, the beginning of a line that may
continue in the block before, and the lines that are found. -/
def readBack (file : List UInt8) (limit pos : ℕ) (leftover : List UInt8) (lines : List String) :
    ℕ × List UInt8 × List String :=
  if 0 < pos ∧ lines.length < limit then
    let n := min chunk pos
    let buf := (file.drop (pos - n)).take n ++ leftover
    let pieces := buf.splitOn newline
    readBack file limit (pos - n) (pieces.headD []) (takeLines limit pieces.tail.reverse lines)
  else (pos, leftover, lines)
termination_by pos
decreasing_by
  have hchunk : 0 < chunk := by decide
  omega

/-- What a walk has found; the beginning of the file is a line too. -/
def finish (limit : ℕ) (r : ℕ × List UInt8 × List String) : List String :=
  if r.1 = 0 ∧ r.2.1 ≠ [] ∧ r.2.2.length < limit then r.2.2 ++ [text r.2.1] else r.2.2

/-- **The last lines of a file that are not empty**, newest first. -/
def readTail (file : File) (limit : ℕ) : List String :=
  match file with
  | none => []
  | some file => finish limit (readBack file limit file.length [] [])

/-! ### Blocks of any size -/

/-- **The same walk, with blocks of any size.** -/
def readBackBy (block : ℕ+) (file : List UInt8) (limit pos : ℕ) (leftover : List UInt8)
    (lines : List String) : ℕ × List UInt8 × List String :=
  if 0 < pos ∧ lines.length < limit then
    let n := min (block : ℕ) pos
    let buf := (file.drop (pos - n)).take n ++ leftover
    let pieces := buf.splitOn newline
    readBackBy block file limit (pos - n) (pieces.headD [])
      (takeLines limit pieces.tail.reverse lines)
  else (pos, leftover, lines)
termination_by pos
decreasing_by
  have hblock : 0 < (block : ℕ) := block.pos
  omega

/-- The last lines of a file, read in blocks of a size. -/
def readTailBy (block : ℕ+) (file : File) (limit : ℕ) : List String :=
  match file with
  | none => []
  | some file => finish limit (readBackBy block file limit file.length [] [])

def chunkSize : ℕ+ := ⟨chunk, by decide⟩

theorem readBack_eq_readBackBy (file : List UInt8) (limit pos : ℕ) (leftover : List UInt8)
    (found : List String) :
    readBack file limit pos leftover found =
      readBackBy chunkSize file limit pos leftover found := by
  fun_induction readBack file limit pos leftover found with
  | case1 pos leftover found hmore n buf pieces ih =>
    rw [readBackBy, if_pos hmore]
    exact ih
  | case2 pos leftover found hstop => rw [readBackBy, if_neg hstop]

theorem readTail_eq_readTailBy (file : File) (limit : ℕ) :
    readTail file limit = readTailBy chunkSize file limit := by
  rcases file with _ | file
  · rfl
  · exact congrArg (finish limit) (readBack_eq_readBackBy file limit file.length [] [])

/-! ### What is read -/

/-- The lines of some bytes, where an empty line is none. -/
def rawLines (bytes : List UInt8) : List (List UInt8) :=
  (bytes.splitOn newline).filter fun piece => !piece.isEmpty

/-- **The lines of a file**, oldest first. -/
def lines (file : File) : List String := (rawLines (file.getD [])).map text

theorem splitOn_append {b h : List UInt8} {t : List (List UInt8)}
    (hb : b.splitOn newline = h :: t) (a : List UInt8) :
    (a ++ b).splitOn newline = (a ++ h).splitOn newline ++ t := by
  induction b generalizing h t a with
  | nil =>
    rw [List.splitOn_nil] at hb
    obtain ⟨rfl, rfl⟩ := List.cons.inj hb
    rw [List.append_nil, List.append_nil]
  | cons c b ih =>
    rw [List.splitOn_cons_eq_if_modifyHead] at hb
    split at hb
    · next hc =>
      obtain ⟨rfl, rfl⟩ := List.cons.inj hb
      rw [List.append_nil, List.splitOn_append_cons_of_beq a b hc]
    · obtain ⟨h', t', hsplit⟩ := List.exists_cons_of_ne_nil (List.splitOn_ne_nil newline b)
      rw [hsplit, List.modifyHead_cons] at hb
      obtain ⟨rfl, rfl⟩ := List.cons.inj hb
      rw [show a ++ c :: b = (a ++ [c]) ++ b by simp, ih hsplit]
      simp

theorem rawLines_append {b h : List UInt8} {t : List (List UInt8)}
    (hb : b.splitOn newline = h :: t) (a : List UInt8) :
    rawLines (a ++ b) = rawLines (a ++ h) ++ t.filter fun piece => !piece.isEmpty := by
  rw [rawLines, splitOn_append hb, List.filter_append]
  rfl

theorem rawLines_of_notMem {b : List UInt8} (h : newline ∉ b) :
    rawLines b = if b = [] then [] else [b] := by
  rw [rawLines, List.splitOn_eq_singleton h]
  rcases b with _ | ⟨c, b⟩
  · rfl
  · rfl

theorem takeLines_eq {limit : ℕ} (pieces : List (List UInt8)) {found : List String}
    (h : found.length ≤ limit) : takeLines limit pieces found =
      found ++ ((pieces.filter fun piece => !piece.isEmpty).map text).take
        (limit - found.length) := by
  induction pieces generalizing found with
  | nil => simp [takeLines]
  | cons piece pieces ih =>
    rw [takeLines]
    split
    · next hfull => simp [Nat.sub_eq_zero_of_le hfull]
    · next hroom =>
      rcases piece with _ | ⟨c, piece⟩
      · simpa using ih h
      · have hone : (found ++ [text (c :: piece)]).length ≤ limit := by simp; omega
        obtain ⟨k, hk⟩ : ∃ k, limit - found.length = k + 1 :=
          ⟨limit - found.length - 1, by omega⟩
        have hk' : limit - (found.length + 1) = k := by omega
        rw [List.isEmpty_cons, if_neg Bool.false_ne_true, ih hone, hk]
        simp [hk']

/-- **A walk finds the lines of what it has not seen**, last first, with the beginning of a line
that it has seen. -/
theorem finish_readBackBy (block : ℕ+) (file : List UInt8) (limit : ℕ) (pos : ℕ)
    (leftover : List UInt8) (found : List String) (hpos : pos ≤ file.length)
    (hleft : newline ∉ leftover) (hfound : found.length ≤ limit) :
    finish limit (readBackBy block file limit pos leftover found) =
      found ++ (((rawLines (file.take pos ++ leftover)).map text).reverse).take
        (limit - found.length) := by
  fun_induction readBackBy block file limit pos leftover found with
  | case1 pos leftover found hmore n buf pieces ih =>
    obtain ⟨h, t, hsplit⟩ := List.exists_cons_of_ne_nil (List.splitOn_ne_nil newline buf)
    have hpieces : pieces = h :: t := hsplit
    have htake : file.take pos ++ leftover = file.take (pos - n) ++ buf := by
      rw [← List.append_assoc, ← List.take_add, Nat.sub_add_cancel (min_le_right _ _)]
    rw [hpieces] at ih ⊢
    have hlines := takeLines_eq t.reverse hfound
    have hlength : (takeLines limit t.reverse found).length ≤ limit := by
      rw [hlines, List.length_append, List.length_take]
      omega
    have hnewline : newline ∉ h :=
      Words.notMem_of_mem_splitOn (hsplit.symm ▸ List.mem_cons_self)
    refine (ih (le_trans (Nat.sub_le _ _) hpos) hnewline hlength).trans ?_
    rw [htake, rawLines_append hsplit, List.map_append, List.reverse_append, List.take_append]
    simp only [List.tail_cons, List.headD_cons]
    rw [hlines, List.append_assoc, List.filter_reverse, List.map_reverse]
    congr 2
    rw [List.length_append, List.length_take]
    congr 1
    omega
  | case2 pos leftover found hstop =>
    rw [finish]
    rcases Nat.eq_zero_or_pos pos with rfl | hpos
    · rw [List.take_zero, List.nil_append, rawLines_of_notMem hleft]
      dsimp only
      split
      · next hlast =>
        obtain ⟨k, hk⟩ : ∃ k, limit - found.length = k + 1 :=
          ⟨limit - found.length - 1, by omega⟩
        simp [hlast.2.1, hk]
      · next hnone =>
        rcases eq_or_ne leftover [] with rfl | hne
        · simp
        · have hfull : limit - found.length = 0 := by
            have hle := not_lt.mp fun hlt => hnone ⟨rfl, hne, hlt⟩
            omega
          simp [hfull]
    · have hfull : limit - found.length = 0 := by
        have hle := not_lt.mp fun hlt => hstop ⟨hpos, hlt⟩
        omega
      simp [hfull, hpos.ne']

/-- **The last lines are read, newest first**, whatever the blocks. -/
theorem readTailBy_eq (block : ℕ+) (file : File) (limit : ℕ) :
    readTailBy block file limit = (lines file).reverse.take limit := by
  rcases file with _ | file
  · simp [readTailBy, lines, rawLines]
  · have h := finish_readBackBy block file limit file.length [] [] le_rfl List.not_mem_nil
      (Nat.zero_le _)
    rw [List.take_length, List.append_nil, List.nil_append] at h
    exact h

theorem readTail_eq (file : File) (limit : ℕ) :
    readTail file limit = (lines file).reverse.take limit := by
  rw [readTail_eq_readTailBy, readTailBy_eq]

/-- The segments between newlines that are not empty, the last first. -/
def segments (file : List UInt8) : List (List UInt8) :=
  (file.splitOn newline).reverse.filter fun piece => !piece.isEmpty

/-- **What is read of a file are its newest segments**, each decoded as a whole, whatever the size
of the blocks, and so for the size that is used. -/
theorem readTailBy_segments (file : List UInt8) (limit : ℕ) :
    (∀ block, readTailBy block (some file) limit = ((segments file).take limit).map text) ∧
      readTail (some file) limit = ((segments file).take limit).map text := by
  have hlines : (lines (some file)).reverse.take limit = ((segments file).take limit).map text := by
    rw [lines, Option.getD_some, rawLines, ← List.map_reverse, ← List.filter_reverse, List.map_take,
      segments]
  exact ⟨fun block => (readTailBy_eq block _ limit).trans hlines,
    (readTail_eq _ limit).trans hlines⟩

/-! ### The newest events -/

/-- A log and the file that it was renamed to. -/
structure Log where
  live : File
  rotated : File

variable {ε : Type*}

/-- **The newest events of a log**, at most `limit`, where `json` reads a line. The log of grabs and
that of usage are read alike. -/
def recent (json : String → Option ε) (log : Log) (limit : ℕ) : List ε :=
  let out := (readTail log.live limit).filterMap json
  if out.length < limit then
    out ++ (readTail log.rotated (limit - out.length)).filterMap json
  else out

def events (json : String → Option ε) (file : File) : List ε := (lines file).filterMap json

/-- **The newest events**, newest first. -/
def newest (json : String → Option ε) (log : Log) (limit : ℕ) : List ε :=
  (events json log.rotated ++ events json log.live).reverse.take limit

/-- The events among the newest lines of a file. -/
def tailEvents (json : String → Option ε) (file : File) (limit : ℕ) : List ε :=
  ((lines file).reverse.take limit).filterMap json

/-- How many events are missing once the live file is read. -/
def missing (json : String → Option ε) (log : Log) (limit : ℕ) : ℕ :=
  limit - (tailEvents json log.live limit).length

/-- **Each file's events are its newest**, as many as are wanted of it. -/
structure Newest (json : String → Option ε) (log : Log) (limit : ℕ) : Prop where
  live : tailEvents json log.live limit = (events json log.live).reverse.take limit
  rotated : tailEvents json log.rotated (missing json log limit) =
    (events json log.rotated).reverse.take (limit - (events json log.live).length)

/-- **The newest lines of a file are events, or no older line is one.** -/
def Sound (json : String → Option ε) (file : File) (limit : ℕ) : Prop :=
  (∀ line ∈ (lines file).reverse.take limit, (json line).isSome = true) ∨
    ∀ line ∈ (lines file).reverse.drop limit, json line = none

theorem recent_eq (json : String → Option ε) (log : Log) (limit : ℕ) :
    recent json log limit = tailEvents json log.live limit ++
      tailEvents json log.rotated (missing json log limit) := by
  simp only [recent, readTail_eq]
  split
  · rfl
  · next hfull =>
    have hzero : missing json log limit = 0 := Nat.sub_eq_zero_of_le (not_lt.mp hfull)
    rw [hzero]
    exact (List.append_nil _).symm

theorem length_tailEvents_le (json : String → Option ε) (file : File) (limit : ℕ) :
    (tailEvents json file limit).length ≤ limit :=
  (List.length_filterMap_le _ _).trans (List.length_take_le _ _)

theorem events_reverse (json : String → Option ε) (file : File) (limit : ℕ) :
    (events json file).reverse =
      tailEvents json file limit ++ ((lines file).reverse.drop limit).filterMap json := by
  rw [events, ← List.filterMap_reverse, tailEvents, ← List.filterMap_append,
    List.take_append_drop]

/-- **The events among the newest lines are the newest events** exactly when the file is sound. -/
theorem tailEvents_eq_iff (json : String → Option ε) (file : File) (limit : ℕ) :
    tailEvents json file limit = (events json file).reverse.take limit ↔
      Sound json file limit := by
  have hle := length_tailEvents_le json file limit
  rw [events_reverse json file limit, List.take_append, List.take_of_length_le hle,
    List.self_eq_append_right, List.take_eq_nil_iff, Nat.sub_eq_zero_iff_le,
    List.filterMap_eq_nil_iff]
  refine ⟨Or.imp_left fun hfull => ?_, fun hsound => ?_⟩
  · refine List.filterMap_length_eq_length.mp (le_antisymm (List.length_filterMap_le _ _) ?_)
    exact (List.length_take_le _ _).trans hfull
  · rcases hsound with hall | hnone
    · have hlength : (tailEvents json file limit).length = min limit (lines file).reverse.length :=
        (List.filterMap_length_eq_length.mpr hall).trans List.length_take
      rcases le_total limit (lines file).reverse.length with hlong | hshort
      · exact Or.inl (by omega)
      · refine Or.inr fun line hline => ?_
        rw [List.drop_eq_nil_of_le hshort] at hline
        cases hline
    · exact Or.inr hnone

/-- **The log is sound**: its live file is, and the rotated file for what is missing. -/
structure Whole (json : String → Option ε) (log : Log) (limit : ℕ) : Prop where
  live : Sound json log.live limit
  rotated : Sound json log.rotated (missing json log limit)

theorem missing_eq {json : String → Option ε} {log : Log} {limit : ℕ}
    (h : tailEvents json log.live limit = (events json log.live).reverse.take limit) :
    missing json log limit = limit - (events json log.live).length := by
  rw [missing, h, List.length_take, List.length_reverse]
  omega

/-- **Each file's events are its newest** exactly when the log is sound. -/
theorem newest_iff (json : String → Option ε) (log : Log) (limit : ℕ) :
    Newest json log limit ↔ Whole json log limit := by
  constructor
  · rintro ⟨hlive, hrotated⟩
    rw [← missing_eq hlive] at hrotated
    exact ⟨(tailEvents_eq_iff json log.live limit).mp hlive,
      (tailEvents_eq_iff json log.rotated _).mp hrotated⟩
  · rintro ⟨hlive, hrotated⟩
    have hlive := (tailEvents_eq_iff json log.live limit).mpr hlive
    refine ⟨hlive, ?_⟩
    rw [← missing_eq hlive]
    exact (tailEvents_eq_iff json log.rotated _).mpr hrotated

theorem recent_eq_newest {json : String → Option ε} {log : Log} {limit : ℕ}
    (h : Newest json log limit) : recent json log limit = newest json log limit := by
  rw [recent_eq, h.live, h.rotated, newest, List.reverse_append, List.take_append,
    List.length_reverse]

/-- **Where no event is twice, the newest events are each file's newest.** -/
theorem newest_of_recent_eq {json : String → Option ε} {log : Log} {limit : ℕ}
    (hnodup : (events json log.rotated ++ events json log.live).Nodup)
    (h : recent json log limit = newest json log limit) : Newest json log limit := by
  have hle := length_tailEvents_le json log.live limit
  have hsplit := events_reverse json log.live limit
  rw [recent_eq, newest, List.reverse_append, hsplit, List.append_assoc, List.take_append,
    List.take_of_length_le hle] at h
  have h := List.append_cancel_left h
  -- no older event of the live file is missing, or it would have come from the rotated file
  have hnone : missing json log limit = 0 ∨
      ((lines log.live).reverse.drop limit).filterMap json = [] := by
    rw [or_iff_not_imp_left]
    intro hmissing
    obtain ⟨k, hk⟩ := Nat.exists_eq_succ_of_ne_zero hmissing
    rcases hrest : ((lines log.live).reverse.drop limit).filterMap json with _ | ⟨e, rest⟩
    · rfl
    · rw [hrest, ← missing, hk, List.cons_append, List.take_succ_cons] at h
      have hrotated : e ∈ (events json log.rotated).reverse := by
        rw [events_reverse json log.rotated (missing json log limit), hk, h]
        exact List.mem_append_left _ List.mem_cons_self
      have hlive : e ∈ (events json log.live).reverse := by
        rw [hsplit, hrest]
        exact List.mem_append_right _ List.mem_cons_self
      exact (List.disjoint_of_nodup_append hnodup (List.mem_reverse.mp hrotated)
        (List.mem_reverse.mp hlive)).elim
  have hlive : tailEvents json log.live limit = (events json log.live).reverse.take limit := by
    rw [hsplit, List.take_append, List.take_of_length_le hle, List.self_eq_append_right]
    rcases hnone with hzero | hnil
    · rw [← missing, hzero, List.take_zero]
    · rw [hnil, List.take_nil]
  refine ⟨hlive, ?_⟩
  rw [← missing_eq hlive]
  rcases hnone with hzero | hnil
  · rw [hzero, tailEvents, List.take_zero, List.filterMap_nil, List.take_zero]
  · rw [hnil, List.nil_append] at h
    exact h

/-- **What is returned is the newest events, each file's its newest, exactly when the log is
sound**: where no event is twice, exactly when it is the newest events. -/
theorem recent_iff (json : String → Option ε) (log : Log) (limit : ℕ) :
    (Newest json log limit ↔ Whole json log limit) ∧
      (Newest json log limit → recent json log limit = newest json log limit) ∧
      ((events json log.rotated ++ events json log.live).Nodup →
        recent json log limit = newest json log limit → Newest json log limit) :=
  ⟨newest_iff json log limit, recent_eq_newest, newest_of_recent_eq⟩

def older : List UInt8 := [123, 34, 110, 34, 58, 49, 125]

def newer : List UInt8 := [123, 34, 110, 34, 58, 50, 125]

def torn : List UInt8 := [123, 34, 110, 34, 58]

/-- An older event in the rotated file; a newer one and half a line in the live file. -/
def tornLog : Log := ⟨some (newer ++ newline :: torn), some (older ++ [newline])⟩

def value (line : String) : Option ℕ :=
  if line = "\x7b\"n\":1\x7d" then some 1 else if line = "\x7b\"n\":2\x7d" then some 2 else none

/-- Half a line takes the place of the newest event, and an older one is returned. -/
theorem not_newest_malformed : ¬ ∀ (json : String → Option ℕ) (log : Log) (limit : ℕ),
    recent json log limit = newest json log limit := by
  intro hall
  have hlive : lines tornLog.live = ["\x7b\"n\":2\x7d", "\x7b\"n\":"] := by
    rw [lines, show tornLog.live.getD [] = newer ++ newline :: torn from rfl, rawLines,
      List.splitOn_append_cons_self_of_not_mem (by decide),
      List.splitOn_eq_singleton (by decide)]
    rfl
  have hrotated : lines tornLog.rotated = ["\x7b\"n\":1\x7d"] := by
    rw [lines, show tornLog.rotated.getD [] = older ++ newline :: [] from rfl, rawLines,
      List.splitOn_append_cons_self_of_not_mem (by decide), List.splitOn_nil]
    rfl
  have h := hall value tornLog 1
  rw [recent_eq, newest, missing, tailEvents, tailEvents, events, events, hlive, hrotated] at h
  cases h

end EmeraldExchange.Gateway.Jsonl
