import Mathlib.Data.List.Sort
import Mathlib.Data.List.Infix
import Mathlib.Data.List.Perm.Subperm
import EmeraldExchange.Gateway.Jsonl
import EmeraldExchange.Lib.IndexMap
import EmeraldExchange.Lib.JsonTree
import EmeraldExchange.Lib.Runs

/-!
# The usage summary

What the models cost is logged call by call, and is summed per user over the last thirty days. The
summary reads the live file and then the file that it was last renamed to, each from its end back to
the first event that is too old, and at most a hundred thousand lines in all. Appends, and the
rename of the live file over the rotated one, happen at any time.

A rename between the two reads moves the events that have been counted into the file that is read
next: they are counted twice (`not_countsOnce_rotation`), and the
events of the file that was there are not counted at all. Without one, every event of the window
that was appended before the call is counted once, where the files still have it, in the order of
time, and are not longer than the summary reads
(`countsOnce_of_runs`).

An event counts as often as it was appended. Each write is one step.
-/

namespace EmeraldExchange.Gateway.Usage

open Jsonl

/-! ### The files -/

def rotateAtBytes : ℕ := 5 * 1024 * 1024

structure Line where
  bytes : List UInt8
  ne_nil : bytes ≠ []
  oneLine : newline ∉ bytes

/-- **A file to which whole lines are appended**; one without bytes may as well not be there. -/
structure LogFile where
  bytes : List UInt8
  ended : bytes = [] ∨ ∃ init, bytes = init ++ [newline]

namespace LogFile

def empty : LogFile := ⟨[], Or.inl rfl⟩

def append (file : LogFile) (line : Line) : LogFile :=
  ⟨file.bytes ++ line.bytes ++ [newline], Or.inr ⟨file.bytes ++ line.bytes, rfl⟩⟩

def lines (file : LogFile) : List (List UInt8) := rawLines file.bytes

@[simp] theorem lines_empty : empty.lines = [] := rfl

/-- **A line is appended as a line.** -/
@[simp] theorem lines_append (file : LogFile) (line : Line) :
    (file.append line).lines = file.lines ++ [line.bytes] := by
  have hline : rawLines (line.bytes ++ [newline]) = [line.bytes] := by
    rw [rawLines, List.splitOn_append_cons_self_of_not_mem line.oneLine, List.splitOn_nil,
      List.filter_cons_of_pos (by simpa using line.ne_nil)]
    rfl
  have happend : (file.append line).lines = rawLines (file.bytes ++ (line.bytes ++ [newline])) :=
    congrArg rawLines (List.append_assoc _ _ _)
  rw [happend, lines]
  rcases file.ended with hnil | ⟨init, hinit⟩
  · rw [hnil, List.nil_append, hline]
    rfl
  · rw [hinit, List.append_assoc, List.singleton_append, rawLines,
      List.splitOn_append_cons_self, List.filter_append, ← rawLines, ← rawLines, hline, rawLines,
      rawLines, List.splitOn_append_cons_self, List.splitOn_nil, List.filter_append]
    simp

end LogFile

/-! ### The events -/

structure Reader where
  json : String → Option JsonTree
  /-- In milliseconds. -/
  rfc3339 : String → Option ℤ

variable (rd : Reader)

/-- The time of an event; none is not a number. -/
def tsMs (ev : JsonTree) : Option ℚ :=
  match ev.index "ts" with
  | .str s => (rd.rfc3339 s).map fun ms => (ms : ℚ)
  | v => v.asNum

def inWindow (since : ℚ) (ev : JsonTree) : Bool :=
  match tsMs rd ev with
  | some ts => !decide (ts < since)
  | none => true

/-- **The newest events of a file**, until one is too old. -/
def untilCutoff (file : File) (cutoff : ℚ) (cap : ℕ) : List JsonTree :=
  (((readTail file cap).filterMap rd.json).takeWhile (inWindow rd cutoff)).take cap

structure Summary where
  sub : String
  username : JsonTree
  calls : ℚ
  errors : ℚ
  inputTokens : ℚ
  outputTokens : ℚ
  cacheCreationInputTokens : ℚ
  cacheReadInputTokens : ℚ
  costCents : ℚ

def num (ev : JsonTree) (key : String) : ℚ := (ev.index key).asNum.getD 0

/-- The totals of a user none of whose events is counted yet. -/
def Summary.new (sub : String) (ev : JsonTree) : Summary :=
  ⟨sub, (ev.get "username").getD .null, 0, 0, 0, 0, 0, 0, 0⟩

def Summary.add (row : Summary) (ev : JsonTree) : Summary :=
  let kind := (ev.index "type").asStr
  { row with
    calls := if kind = some "claude_call" then row.calls + (ev.index "callCount").asNum.getD 1
      else row.calls
    errors := if kind = some "claude_error" then row.errors + 1 else row.errors
    inputTokens := row.inputTokens + num ev "inputTokens"
    outputTokens := row.outputTokens + num ev "outputTokens"
    cacheCreationInputTokens := row.cacheCreationInputTokens + num ev "cacheCreationInputTokens"
    cacheReadInputTokens := row.cacheReadInputTokens + num ev "cacheReadInputTokens"
    costCents := row.costCents + num ev "costCents" }

def countEvent (byUser : IndexMap String Summary) (ev : JsonTree) : IndexMap String Summary :=
  match (ev.index "sub").asStr with
  | none => byUser
  | some sub => byUser.insert sub (((byUser.lookup sub).getD (.new sub ev)).add ev)

/-- **The totals per user**, most expensive first. -/
def tally (events : List JsonTree) : List Summary :=
  (events.foldl countEvent .empty).values.insertionSort fun a b => b.costCents ≤ a.costCents

/-- The row of a user after one more of the user's events. -/
def Summary.next (sub : String) (row : Option Summary) (ev : JsonTree) : Option Summary :=
  some ((row.getD (.new sub ev)).add ev)

def summaryHardCap : ℕ := 100000

/-! ### One call -/

/-- Where the call is, the lines that were there when it began, and what it has counted. -/
inductive Call
  | idle
  | started (since : ℚ) (before : List (List UInt8))
  | readLive (since : ℚ) (before : List (List UInt8)) (events : List JsonTree)
  | done (since : ℚ) (before : List (List UInt8)) (events : List JsonTree)

/-- **The two files and the call.** -/
structure World where
  live : LogFile
  rotated : LogFile
  /-- The lines over whose file another was renamed. -/
  lost : List (List UInt8)
  call : Call

namespace World

/-- Every line that was ever appended, oldest first. -/
def history (w : World) : List (List UInt8) := w.lost ++ w.rotated.lines ++ w.live.lines

/-- The live file is renamed over the rotated one. -/
def rotate (w : World) : World :=
  { w with live := .empty, rotated := w.live, lost := w.lost ++ w.rotated.lines }

/-- The files as they are found, and no call yet. -/
def start (live rotated : LogFile) : World := ⟨live, rotated, [], .idle⟩

end World

inductive Act
  | append (line : Line)
  | rotate
  | start (since : ℚ)
  | readLive
  | readRotated

/-- **One step.** -/
def step (w : World) : Act → Option World
  | .append line => some { w with live := w.live.append line }
  | .rotate =>
    if rotateAtBytes < w.live.bytes.length then some w.rotate else none
  | .start since =>
    match w.call with
    | .idle => some { w with call := .started since w.history }
    | _ => none
  | .readLive =>
    match w.call with
    | .started since before =>
      let events := untilCutoff rd w.live.bytes since summaryHardCap
      some { w with call := .readLive since before events }
    | _ => none
  | .readRotated =>
    match w.call with
    | .readLive since before events =>
      let remaining := summaryHardCap - events.length
      let events :=
        if 0 < remaining then events ++ untilCutoff rd w.rotated.bytes since remaining else events
      some { w with call := .done since before events }
    | _ => none

def Call.summary : Call → Option (List Summary)
  | .done _ _ events => some (tally events)
  | _ => none

/-! ### What is to hold -/

def eventsOf (lines : List (List UInt8)) : List JsonTree :=
  lines.filterMap fun line => rd.json (text line)

def window (since : ℚ) (lines : List (List UInt8)) : List JsonTree :=
  (eventsOf rd lines).filter (inWindow rd since)

/-- **Each event of the window that was there when the call began is counted, and none more often
than it was appended.** -/
def CountsOnce (w : World) : Prop :=
  ∀ since before events, w.call = .done since before events →
    (window rd since before).Subperm events ∧ events.Subperm (eventsOf rd w.history)

/-- After an event of the window none is older. -/
def Ordered (since : ℚ) (lines : List (List UInt8)) : Prop :=
  (eventsOf rd lines).Pairwise fun a b => inWindow rd since a = true → inWindow rd since b = true

/-- **The files have what the call is to count**: none of it is lost, they are not longer than it
reads, and no event that is too old is before one that is not. -/
structure Countable (since : ℚ) (before : List (List UInt8)) (w : World) : Prop where
  kept : window rd since (w.lost.take before.length) = []
  short : w.rotated.lines.length + w.live.lines.length ≤ summaryHardCap
  live : Ordered rd since w.live.lines
  rotated : Ordered rd since w.rotated.lines

/-- **The files are not renamed between the two reads**, and have at the first of them what the call
is to count. -/
def Calm (w : World) : Act → Prop
  | .rotate => ∀ since before events, w.call ≠ .readLive since before events
  | .readLive => ∀ since before, w.call = .started since before → Countable rd since before w
  | _ => True

variable {rd}

/-! ### What one read counts -/

theorem takeWhile_eq_filter {α : Type*} {p : α → Bool} : ∀ {l : List α},
    l.Pairwise (fun a b => p b = true → p a = true) → l.takeWhile p = l.filter p
  | [], _ => rfl
  | a :: l, h => by
    obtain ⟨ha, hl⟩ := List.pairwise_cons.mp h
    rcases hp : p a with _ | _
    · rw [List.takeWhile_cons_of_neg (by simp [hp]), List.filter_cons_of_neg (by simp [hp])]
      refine (List.filter_eq_nil_iff.mpr fun b hb hpb => ?_).symm
      rw [ha b hb hpb] at hp
      cases hp
    · rw [List.takeWhile_cons_of_pos hp, List.filter_cons_of_pos hp, takeWhile_eq_filter hl]

/-- **A file in the order of time that is read whole gives its events of the window.** -/
theorem untilCutoff_eq {file : LogFile} {since : ℚ} {cap : ℕ} (hshort : file.lines.length ≤ cap)
    (hordered : Ordered rd since file.lines) :
    untilCutoff rd file.bytes since cap = (window rd since file.lines).reverse := by
  have hread : (readTail file.bytes cap).filterMap rd.json = (eventsOf rd file.lines).reverse := by
    rw [readTail_eq, List.take_of_length_le, List.filterMap_reverse, Jsonl.lines,
      List.filterMap_map]
    · rfl
    · simpa [Jsonl.lines] using (show (rawLines file.bytes).length ≤ cap from hshort)
  have hlength : (eventsOf rd file.lines).length ≤ cap :=
    (List.length_filterMap_le _ _).trans hshort
  rw [untilCutoff, hread, takeWhile_eq_filter (List.pairwise_reverse.mpr hordered),
    List.filter_reverse, List.take_of_length_le, window]
  rw [List.length_reverse]
  exact (List.length_filter_le _ _).trans hlength

theorem window_append (since : ℚ) (xs ys : List (List UInt8)) :
    window rd since (xs ++ ys) = window rd since xs ++ window rd since ys := by
  rw [window, eventsOf, List.filterMap_append, List.filter_append]
  rfl

theorem window_sublist {since : ℚ} {xs ys : List (List UInt8)} (h : xs.Sublist ys) :
    (window rd since xs).Sublist (window rd since ys) :=
  (h.filterMap _).filter _

theorem window_sublist_eventsOf (since : ℚ) (xs : List (List UInt8)) :
    (window rd since xs).Sublist (eventsOf rd xs) := List.filter_sublist

theorem window_before_sublist {w : World} {since : ℚ} {before : List (List UInt8)}
    ( hprefix : before <+: w.history)
    (hkept : window rd since (w.lost.take before.length) = []) :
    (window rd since before).Sublist (window rd since (w.rotated.lines ++ w.live.lines)) := by
  rw [List.prefix_iff_eq_take.mp hprefix, World.history, List.append_assoc, List.take_append,
    window_append, hkept, List.nil_append]
  exact window_sublist (List.take_sublist _ _)

/-! ### A whole run -/

/-- **Where the call is, and what it has to do with the files.** -/
def Inv (rd : Reader) (w : World) : Prop :=
  match w.call with
  | .idle => True
  | .started _ before => before <+: w.history
  | .readLive since before events =>
    ∃ read, read <+: w.live.lines ∧ events = (window rd since read).reverse ∧
      w.rotated.lines.length + read.length ≤ summaryHardCap ∧ Ordered rd since w.rotated.lines ∧
      (window rd since before).Sublist (window rd since (w.rotated.lines ++ read))
  | .done since before events =>
    (window rd since before).Subperm events ∧ events.Subperm (eventsOf rd w.history)

theorem history_append (w : World) (line : Line) :
    World.history { w with live := w.live.append line } = w.history ++ [line.bytes] := by
  simp [World.history]

theorem history_rotate (w : World) : w.rotate.history = w.history := by
  simp [World.history, World.rotate]

/-- **One calm step** keeps the call in step with the files. -/
theorem Inv.step {w w' : World} {a : Act} (h : Inv rd w) (hcalm : Calm rd w a)
    (hstep : step rd w a = some w') : Inv rd w' := by
  obtain ⟨live, rotated, lost, call⟩ := w
  rcases a with line | _ | since | _ | _
  -- a line more is a line more of the live file and of the history
  · obtain rfl := Option.some.inj hstep
    rcases call with _ | ⟨since, before⟩ | ⟨since, before, events⟩ | ⟨since, before, events⟩
    · trivial
    · show before <+: World.history _
      rw [history_append]
      exact h.trans (List.prefix_append _ _)
    · obtain ⟨read, hread, hrest⟩ := h
      refine ⟨read, ?_, hrest⟩
      show read <+: (live.append line).lines
      rw [LogFile.lines_append]
      exact hread.trans (List.prefix_append _ _)
    · obtain ⟨hbefore, hevents⟩ := h
      refine ⟨hbefore, hevents.trans ?_⟩
      show (eventsOf rd _).Subperm (eventsOf rd (World.history _))
      rw [history_append]
      exact ((List.sublist_append_left _ _).filterMap _).subperm
  -- a rename leaves the history, and there is none between the two reads
  · simp only [Usage.step] at hstep
    split at hstep
    · obtain rfl := Option.some.inj hstep
      rcases call with _ | ⟨since, before⟩ | ⟨since, before, events⟩ | ⟨since, before, events⟩
      · trivial
      · show before <+: World.history _
        rw [history_rotate]
        exact h
      · exact absurd rfl (hcalm since before events)
      · obtain ⟨hbefore, hevents⟩ := h
        refine ⟨hbefore, ?_⟩
        show events.Subperm (eventsOf rd (World.history _))
        rw [history_rotate]
        exact hevents
    · cases hstep
  · rcases call with _ | ⟨since, before⟩ | ⟨since, before, events⟩ | ⟨since, before, events⟩
    · obtain rfl := Option.some.inj hstep
      exact List.prefix_rfl
    · cases hstep
    · cases hstep
    · cases hstep
  -- the live file is read whole, and what is to be counted is in it or in the other
  · rcases call with _ | ⟨since, before⟩ | ⟨since, before, events⟩ | ⟨since, before, events⟩
    · cases hstep
    · obtain rfl := Option.some.inj hstep
      have hcount := hcalm since before rfl
      have hshort : live.lines.length ≤ summaryHardCap :=
        le_trans (Nat.le_add_left _ _) hcount.short
      exact ⟨live.lines, List.prefix_rfl, untilCutoff_eq hshort hcount.live, hcount.short,
        hcount.rotated, window_before_sublist h hcount.kept⟩
    · cases hstep
    · cases hstep
  · rcases call with _ | ⟨since, before⟩ | ⟨since, before, events⟩ | ⟨since, before, events⟩
    · cases hstep
    · cases hstep
    · obtain rfl := Option.some.inj hstep
      obtain ⟨read, hread, rfl, hshort, hordered, hbefore⟩ := h
      have hshort : rotated.lines.length + read.length ≤ summaryHardCap := hshort
      have hlength : (window rd since read).reverse.length ≤ read.length := by
        rw [List.length_reverse]
        exact (List.length_filter_le _ _).trans (List.length_filterMap_le _ _)
      -- what the cap leaves is enough for the rotated file
      have hevents : (if 0 < summaryHardCap - (window rd since read).reverse.length then
          (window rd since read).reverse ++ untilCutoff rd rotated.bytes since
            (summaryHardCap - (window rd since read).reverse.length)
          else (window rd since read).reverse) =
          (window rd since (rotated.lines ++ read)).reverse := by
        rw [window_append, List.reverse_append]
        split
        · rw [untilCutoff_eq (by omega) hordered]
        · have hnil : rotated.lines = [] :=
            List.eq_nil_of_length_eq_zero (by omega)
          rw [hnil]
          exact (List.append_nil _).symm
      show _ ∧ _
      dsimp only
      rw [hevents]
      refine ⟨hbefore.subperm.trans (List.reverse_perm _).symm.subperm, ?_⟩
      refine (List.reverse_perm _).subperm.trans ?_
      refine ((window_sublist_eventsOf since _).trans (List.Sublist.filterMap _ ?_)).subperm
      rw [World.history, List.append_assoc]
      exact ((List.Sublist.refl _).append hread.sublist).trans (List.sublist_append_right _ _)
    · cases hstep

/-- **A summary counts each event once in every run** in which the files are not renamed between its
two reads, and have what it is to count. -/
theorem countsOnce_of_runs {live rotated : LogFile} {w : World}
    (h : Runs (step rd) (Calm rd) (World.start live rotated) w) : CountsOnce rd w := by
  have hinv : Inv rd w := Runs.invariant h trivial fun v a v' hv ha hstep => hv.step ha hstep
  intro since before events hcall
  simp only [Inv, hcall] at hinv
  exact hinv

/-- `{"ts":"2026-07-01T00:00:00.000Z","sub":"plex:1","username":"anna","type":"claude_call",`
`"callCount":1,"costCents":0.45}` -/
def callBytes : List UInt8 :=
  [123, 34, 116, 115, 34, 58, 34, 50, 48, 50, 54, 45, 48, 55, 45, 48, 49, 84, 48, 48, 58, 48, 48,
    58, 48, 48, 46, 48, 48, 48, 90, 34, 44, 34, 115, 117, 98, 34, 58, 34, 112, 108, 101, 120, 58,
    49, 34, 44, 34, 117, 115, 101, 114, 110, 97, 109, 101, 34, 58, 34, 97, 110, 110, 97, 34, 44,
    34, 116, 121, 112, 101, 34, 58, 34, 99, 108, 97, 117, 100, 101, 95, 99, 97, 108, 108, 34, 44,
    34, 99, 97, 108, 108, 67, 111, 117, 110, 116, 34, 58, 49, 44, 34, 99, 111, 115, 116, 67, 101,
    110, 116, 115, 34, 58, 48, 46, 52, 53, 125]

def callLine : Line := ⟨callBytes, by decide, by decide⟩

def callEvent : JsonTree :=
  .obj [("ts", .str "2026-07-01T00:00:00.000Z"), ("sub", .str "plex:1"),
    ("username", .str "anna"), ("type", .str "claude_call"), ("callCount", .int 1),
    ("costCents", .float (45 / 100))]

def callReader : Reader where
  json line := if line = text callBytes then some callEvent else none
  rfc3339 ts := if ts = "2026-07-01T00:00:00.000Z" then some 1782864000000 else none

/-- A file with this line `n` times. -/
def callFile : ℕ → LogFile
  | 0 => .empty
  | n + 1 => (callFile n).append callLine

theorem lines_callFile (n : ℕ) : (callFile n).lines = List.replicate n callBytes := by
  induction n with
  | zero => rfl
  | succ n ih => rw [callFile, LogFile.lines_append, ih, List.replicate_succ', callLine]

theorem length_callFile (n : ℕ) : (callFile n).bytes.length = n * 119 := by
  induction n with
  | zero => rfl
  | succ n ih =>
    have hbytes : callBytes.length = 118 := rfl
    have happend : (callFile (n + 1)).bytes = (callFile n).bytes ++ callBytes ++ [newline] := rfl
    rw [happend, List.length_append, List.length_append, ih, hbytes, List.length_singleton]
    omega

theorem eventsOf_replicate (n : ℕ) :
    eventsOf callReader (List.replicate n callBytes) = List.replicate n callEvent := by
  have hread : callReader.json (text callBytes) = some callEvent := by
    simp only [callReader, if_true]
  exact List.filterMap_replicate_of_some hread

theorem inWindow_callEvent : inWindow callReader 0 callEvent = true := by
  rfl

theorem window_replicate (n : ℕ) :
    window callReader 0 (List.replicate n callBytes) = List.replicate n callEvent := by
  rw [window, eventsOf_replicate, List.filter_replicate_of_pos inWindow_callEvent]

theorem ordered_replicate (n : ℕ) : Ordered callReader 0 (List.replicate n callBytes) := by
  rw [Ordered, eventsOf_replicate]
  exact List.pairwise_replicate.mpr (Or.inr id)

def logged (call : Call) : World := ⟨LogFile.empty.append callLine, .empty, [], call⟩

theorem lines_logged (call : Call) : (logged call).live.lines = List.replicate 1 callBytes :=
  LogFile.lines_append _ _

theorem countable_logged (call : Call) : Countable callReader 0 [callBytes] (logged call) := by
  constructor
  · rfl
  · rw [lines_logged]
    show 0 + 1 ≤ summaryHardCap
    decide
  · rw [lines_logged]
    exact ordered_replicate 1
  · exact List.Pairwise.nil

theorem countsOnce_of_runs_call : ∃ w, Runs (step callReader) (Calm callReader)
    (World.start .empty .empty) w ∧
    w.call = .done 0 [callBytes] [callEvent] ∧ CountsOnce callReader w := by
  have hcount := countable_logged .idle
  have hlive : untilCutoff callReader (logged .idle).live.bytes 0 summaryHardCap =
      [callEvent] := by
    rw [untilCutoff_eq (le_trans (Nat.le_add_left _ _) hcount.short) hcount.live, lines_logged,
      window_replicate]
    rfl
  have hrotated : untilCutoff callReader (logged .idle).rotated.bytes 0 (summaryHardCap - 1) =
      [] :=
    untilCutoff_eq (Nat.zero_le _) hcount.rotated
  have happend : step callReader (World.start .empty .empty) (.append callLine) =
      some (logged .idle) := rfl
  have hstart : step callReader (logged .idle) (.start 0) =
      some (logged (.started 0 [callBytes])) := by
    have hhistory : (logged .idle).history = [callBytes] := lines_logged .idle
    rw [← hhistory]
    rfl
  have hfirst : step callReader (logged (.started 0 [callBytes])) .readLive =
      some (logged (.readLive 0 [callBytes] [callEvent])) := by
    rw [← hlive]
    rfl
  have hsecond : step callReader (logged (.readLive 0 [callBytes] [callEvent])) .readRotated =
      some (logged (.done 0 [callBytes] [callEvent])) := by
    show some (logged (.done 0 [callBytes] ([callEvent] ++ untilCutoff callReader
      (logged .idle).rotated.bytes 0 (summaryHardCap - 1)))) = _
    rw [hrotated]
    rfl
  have hcalm : Calm callReader (logged (.started 0 [callBytes])) .readLive := by
    rintro since before ⟨⟩
    exact countable_logged _
  have hruns : Runs (step callReader) (Calm callReader) (World.start .empty .empty)
      (logged (.done 0 [callBytes] [callEvent])) :=
    (((Relation.ReflTransGen.single ⟨.append callLine, trivial, happend⟩).tail
      ⟨.start 0, trivial, hstart⟩).tail ⟨.readLive, hcalm, hfirst⟩).tail
      ⟨.readRotated, trivial, hsecond⟩
  exact ⟨_, hruns, rfl, countsOnce_of_runs hruns⟩

theorem counted_twice {n : ℕ} (hsize : rotateAtBytes < n * 119) (hcap : 2 * n ≤ summaryHardCap) :
    ∃ w before, Runs (step callReader) anyStep (World.start (callFile n) .empty) w ∧
      w.call = .done 0 before (List.replicate n callEvent ++ List.replicate n callEvent) ∧
      w.history = List.replicate n callBytes := by
  have hread : ∀ {cap : ℕ}, n ≤ cap →
      untilCutoff callReader (callFile n).bytes 0 cap = List.replicate n callEvent := by
    intro cap hle
    have hlines := lines_callFile n
    rw [untilCutoff_eq, hlines, window_replicate, List.reverse_replicate]
    · rw [hlines, List.length_replicate]
      exact hle
    · rw [hlines]
      exact ordered_replicate n
  let world (call : Call) : World := ⟨callFile n, .empty, [], call⟩
  have hstart : step callReader (world .idle) (.start 0) =
      some (world (.started 0 (world .idle).history)) := rfl
  have hfirst : step callReader (world (.started 0 (world .idle).history)) .readLive =
      some (world (.readLive 0 (world .idle).history (List.replicate n callEvent))) := by
    rw [← hread (show n ≤ summaryHardCap by omega)]
    rfl
  have hrotate : step callReader
      (world (.readLive 0 (world .idle).history (List.replicate n callEvent))) .rotate =
      some (world (.readLive 0 (world .idle).history (List.replicate n callEvent))).rotate := by
    refine if_pos ?_
    show rotateAtBytes < (callFile n).bytes.length
    rw [length_callFile]
    exact hsize
  have hsecond : step callReader
      (world (.readLive 0 (world .idle).history (List.replicate n callEvent))).rotate
      .readRotated = some { (world .idle).rotate with
        call := .done 0 (world .idle).history
          (List.replicate n callEvent ++ List.replicate n callEvent) } := by
    have hpos : 0 < n := by
      rcases Nat.eq_zero_or_pos n with rfl | hpos
      · exact absurd hsize (Nat.not_lt.mpr (Nat.zero_le _))
      · exact hpos
    simp only [step, World.rotate, world, List.length_replicate]
    rw [if_pos (by omega), hread (by omega)]
  refine ⟨_, _, (((Relation.ReflTransGen.single ⟨.start 0, trivial, hstart⟩).tail
    ⟨.readLive, trivial, hfirst⟩).tail ⟨.rotate, trivial, hrotate⟩).tail
    ⟨.readRotated, trivial, hsecond⟩, rfl, ?_⟩
  show (world .idle).rotate.history = _
  rw [history_rotate]
  exact lines_callFile n

/-- The file is renamed between the two reads: every event is counted twice. -/
theorem not_countsOnce_rotation : ¬ ∀ (rd : Reader) (live rotated : LogFile) (w : World),
    Runs (step rd) anyStep (World.start live rotated) w → CountsOnce rd w := by
  intro hall
  have hsize : rotateAtBytes < 45000 * 119 := by decide
  have hcap : 2 * 45000 ≤ summaryHardCap := by decide
  obtain ⟨w, before, hruns, hcall, hhistory⟩ := counted_twice hsize hcap
  have hle := (hall _ _ _ w hruns 0 before _ hcall).2.length_le
  rw [hhistory, eventsOf_replicate, List.length_append, List.length_replicate] at hle
  omega

end EmeraldExchange.Gateway.Usage
