import Mathlib.Data.List.Sort
import Mathlib.Data.Rat.Floor

/-!
# Recordings

The rows of `dvr_recordings` and the pure parts of `crates/iptv/src/dvr.rs`: the check a
recording must pass to be scheduled, what a scheduler tick wants of each row, and the
statements that read and write the table.

A time is text, and `ms` is what `Date.parse` makes of it: the milliseconds, or `none` where
the source has NaN. `ms` is a parameter, because the parser of dates is not part of the
repository; nothing below depends on which texts it accepts. A comparison with NaN is false,
and `msLt` and `msLe` are the comparisons.

The table is the list of its rows. The primary key is not assumed: a statement that names
an id acts on every row of that id, as it does in SQL.
-/

namespace EmeraldExchange.Iptv

/-! ### Rows -/

inductive Status
  | scheduled
  | recording
  | completed
  | failed
  | missed
  | cancelled
  deriving DecidableEq

/-- **Active rows** still hold a tuner: `status IN ('scheduled','recording')`. -/
def Status.Active : Status → Prop
  | .scheduled | .recording => True
  | _ => False

instance : DecidablePred Status.Active
  | .scheduled | .recording => .isTrue trivial
  | .completed | .failed | .missed | .cancelled => .isFalse id

/-- A row of `dvr_recordings`. -/
structure Recording where
  id : String
  channelStreamId : ℤ
  channelName : String
  title : String
  startUtc : String
  stopUtc : String
  status : Status
  filePath : Option String
  error : Option String
  deriving DecidableEq

/-- What a client asks to be recorded. The channel is the JavaScript number of its JSON
field, `none` where that is not finite. -/
structure NewRecording where
  channelStreamId : Option ℚ
  channelName : String
  title : String
  startUtc : String
  stopUtc : String
  deriving DecidableEq

/-! ### Times -/

/-- `a < b` for times that may be NaN. -/
def msLt : Option ℤ → Option ℤ → Bool
  | some a, some b => a < b
  | _, _ => false

/-- `a ≤ b` for times that may be NaN. -/
def msLe : Option ℤ → Option ℤ → Bool
  | some a, some b => a ≤ b
  | _, _ => false

@[simp] theorem msLt_some (a b : ℤ) : msLt (some a) (some b) = decide (a < b) := rfl

@[simp] theorem msLe_some (a b : ℤ) : msLe (some a) (some b) = decide (a ≤ b) := rfl

@[simp] theorem msLt_none (a : Option ℤ) : msLt none a = false ∧ msLt a none = false := by
  cases a <;> exact ⟨rfl, rfl⟩

@[simp] theorem msLe_none (a : Option ℤ) : msLe none a = false ∧ msLe a none = false := by
  cases a <;> exact ⟨rfl, rfl⟩

/-- **Two windows overlap** where some millisecond lies in both. They are half open. -/
def Overlap (start stop start' stop' : Option ℤ) : Prop :=
  ∃ t, msLe start (some t) ∧ msLt (some t) stop ∧ msLe start' (some t) ∧ msLt (some t) stop'

theorem msLe_eq_true {a b : Option ℤ} :
    msLe a b = true ↔ ∃ x y, a = some x ∧ b = some y ∧ x ≤ y := by
  cases a <;> cases b <;> simp

theorem msLt_eq_true {a b : Option ℤ} :
    msLt a b = true ↔ ∃ x y, a = some x ∧ b = some y ∧ x < y := by
  cases a <;> cases b <;> simp

theorem Overlap.msLt {s e s' e' : Option ℤ} (h : Overlap s e s' e') :
    msLt s e' = true ∧ msLt s' e = true := by
  obtain ⟨t, h₁, h₂, h₃, h₄⟩ := h
  obtain ⟨a, _, rfl, ht, ha⟩ := msLe_eq_true.mp h₁
  obtain ⟨_, b, ht', rfl, hb⟩ := msLt_eq_true.mp h₂
  obtain ⟨c, _, rfl, ht'', hc⟩ := msLe_eq_true.mp h₃
  obtain ⟨_, d, ht''', rfl, hd⟩ := msLt_eq_true.mp h₄
  cases ht; cases ht'; cases ht''; cases ht'''
  exact ⟨by simp; omega, by simp; omega⟩

theorem not_overlap_touching (s e : Option ℤ) (m : Option ℤ) : ¬ Overlap s m m e := by
  rintro ⟨t, -, h₂, h₃, -⟩
  obtain ⟨_, b, ht, rfl, hb⟩ := msLt_eq_true.mp h₂
  obtain ⟨c, _, hc, ht', hle⟩ := msLe_eq_true.mp h₃
  cases ht; cases ht'; cases hc
  omega

/-! ### The check of a new recording -/

/-- Rust's `char::is_whitespace`: the Unicode property `White_Space`. -/
def isWhitespace (c : Char) : Bool :=
  c ∈ ['\t', '\n', '\x0b', '\x0c', '\r', ' ', '\u0085', '\u00a0', '\u1680', '\u2028', '\u2029',
    '\u202f', '\u205f', '\u3000'] || ('\u2000' ≤ c && c ≤ '\u200a')

/-- `s.trim().is_empty()`. -/
def blank (s : String) : Bool := s.toList.all isWhitespace

/-- A whole number: finite, without a fraction. -/
def wholeNumber : Option ℚ → Bool
  | some q => q.den = 1
  | none => false

/-- A JavaScript number `as i64`: towards zero, and not past the ends. -/
def asI64 : Option ℚ → ℤ
  | some q => max (-2 ^ 63) (min (2 ^ 63 - 1) (if 0 ≤ q then ⌊q⌋ else ⌈q⌉))
  | none => 0

/-- **The check of a new recording**: the code of the first thing that is wrong with it.
`existing` are the windows of the other active recordings of the channel. -/
def validate (ms : String → Option ℤ) (input : NewRecording) (now : ℤ)
    (existing : List (String × String)) : Option String :=
  let start := ms input.startUtc
  let stop := ms input.stopUtc
  if !(wholeNumber input.channelStreamId && input.channelStreamId.any (0 < ·)) then
    some "invalid_channel"
  else if blank input.channelName then some "missing_channel_name"
  else if blank input.title then some "missing_title"
  else if start.isNone || stop.isNone then some "invalid_time"
  else if msLe stop start then some "stop_before_start"
  else if msLe stop (some now) then some "already_ended"
  else if existing.any fun w => msLt (ms w.1) stop && msLt start (ms w.2) then
    some "channel_overlap"
  else none

theorem not_overlap_of_validate {ms : String → Option ℤ} {input : NewRecording} {now : ℤ}
    {existing : List (String × String)} (h : validate ms input now existing = none)
    {w : String × String} (hw : w ∈ existing) :
    ¬ Overlap (ms w.1) (ms w.2) (ms input.startUtc) (ms input.stopUtc) := by
  intro hover
  simp only [validate] at h
  repeat' split at h
  all_goals try cases h
  next hnone =>
    obtain ⟨h₁, h₂⟩ := hover.msLt
    exact hnone (List.any_eq_true.mpr ⟨w, hw, by simp [h₁, h₂]⟩)

/-! ### Statements -/

/-- `SELECT * … WHERE id = ?`. -/
def getRecording (rows : List Recording) (id : String) : Option Recording :=
  rows.find? (·.id = id)

/-- `UPDATE … WHERE id = ?`. -/
def updateRecording (rows : List Recording) (id : String) (f : Recording → Recording) :
    List Recording :=
  rows.map fun r => if r.id = id then f r else r

/-- `DELETE … WHERE id = ?`. -/
def deleteRecording (rows : List Recording) (id : String) : List Recording :=
  rows.filter (·.id ≠ id)

/-- `SELECT * … WHERE status IN ('scheduled','recording') ORDER BY start_utc DESC`. -/
def activeRecordings (rows : List Recording) : List Recording :=
  (rows.filter fun r => r.status.Active).insertionSort fun a b => b.startUtc ≤ a.startUtc

/-- The windows of the active recordings of a channel, as the check is given them. -/
def channelWindows (rows : List Recording) (channel : ℤ) : List (String × String) :=
  (rows.filter fun r => r.channelStreamId = channel ∧ r.status.Active).map
    fun r => (r.startUtc, r.stopUtc)

/-- What `mark_status` makes of a row: a given file path replaces the stored one, and the
error is always overwritten. -/
def markStatus (status : Status) (filePath error : Option String) (r : Recording) : Recording :=
  { r with status := status, filePath := filePath.orElse fun _ => r.filePath, error := error }

def scheduleRow (input : NewRecording) (id : String) : Recording where
  id := id
  channelStreamId := asI64 input.channelStreamId
  channelName := input.channelName
  title := input.title
  startUtc := input.startUtc
  stopUtc := input.stopUtc
  status := .scheduled
  filePath := none
  error := none

section statements

variable {rows : List Recording} {id id' : String} {f : Recording → Recording}

theorem getRecording_id {r : Recording} (h : getRecording rows id = some r) : r.id = id := by
  simpa using List.find?_some h

theorem getRecording_updateRecording (hf : ∀ r, (f r).id = r.id) :
    getRecording (updateRecording rows id f) id' =
      if id' = id then (getRecording rows id').map f else getRecording rows id' := by
  have hcomp : (fun r : Recording => decide (r.id = id')) ∘
      (fun r => if r.id = id then f r else r) = fun r => decide (r.id = id') := by
    funext r
    by_cases hr : r.id = id <;> simp [hr, hf]
  have hmap : getRecording (updateRecording rows id f) id' =
      (getRecording rows id').map fun r => if r.id = id then f r else r := by
    rw [getRecording, updateRecording, List.find?_map, hcomp]
    rfl
  rw [hmap]
  cases hget : getRecording rows id' with
  | none => simp
  | some r => by_cases h : id' = id <;> simp [getRecording_id hget, h]

theorem getRecording_deleteRecording :
    getRecording (deleteRecording rows id) id' =
      if id' = id then none else getRecording rows id' := by
  unfold getRecording deleteRecording
  rw [List.find?_filter]
  by_cases h : id' = id
  · subst h
    simp
  · rw [if_neg h]
    congr 1
    funext r
    by_cases hr : r.id = id'
    · simp [hr, h]
    · simp [hr]

end statements

/-! ### What a tick wants -/

structure Plan where
  toStart : List Recording
  toStop : List Recording
  toMiss : List Recording
  deriving DecidableEq

/-- **What a tick wants of each row** at `now`: a due row is started, a row whose window
closed is stopped if it was recording and missed if it was not. -/
def planTransitions (ms : String → Option ℤ) (now : ℤ) (rows : List Recording) : Plan where
  toStart := rows.filter fun r =>
    (r.status = .scheduled ∧ msLe (ms r.stopUtc) (some now) = false ∧
      msLe (ms r.startUtc) (some now) = true) ∨
    (r.status = .recording ∧ msLe (ms r.stopUtc) (some now) = false)
  toStop := rows.filter fun r => r.status = .recording ∧ msLe (ms r.stopUtc) (some now) = true
  toMiss := rows.filter fun r => r.status = .scheduled ∧ msLe (ms r.stopUtc) (some now) = true

end EmeraldExchange.Iptv
