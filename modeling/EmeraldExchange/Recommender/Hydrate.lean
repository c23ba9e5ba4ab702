import Mathlib.Algebra.Group.Nat.Defs
import Mathlib.Data.Int.Order.Basic
import Mathlib.Data.List.Nodup
import Mathlib.Order.MinMax

/-!
# Draining the ingest queue

`hydrate_loop` of `crates/recommender/src/ingest.rs` takes the pending titles batch by batch and
gives each to a worker (`hydrate_row`). A title that was hydrated, skipped or failed leaves the
queue; one whose worker was locked out, could not open the database or crashed stays, and comes
first again in the next batch. Three batches in a row in which no title leaves the queue end the
loop with an error.

Whatever the workers do, it ends
(`hydrateLoop_ends`): a batch in which some title leaves the
queue makes the queue shorter, and of the others only two may come in a row. With no permits for
the workers it does not end, which the command line refuses, and with a limit below zero it stops
above the limit (`hydrateLoop_waits`).
-/

namespace EmeraldExchange.Recommender.Hydrate

/-! ### The queue -/

inductive Status
  | pending
  | done
  | skipped
  | error
  deriving DecidableEq

/-- A row of `ingest_queue`. -/
structure QueueRow where
  tmdbId : ℤ
  kind : String
  status : Status
  attempts : ℤ

abbrev Key := ℤ × String

def QueueRow.key (r : QueueRow) : Key := (r.tmdbId, r.kind)

/-- **`ingest_queue`** -/
structure Queue where
  rows : List QueueRow
  nodup : (rows.map QueueRow.key).Nodup

/-- `ORDER BY attempts ASC, kind, tmdb_id` -/
def QueueRow.before (r r' : QueueRow) : Bool :=
  r.attempts < r'.attempts || r.attempts = r'.attempts &&
    (r.kind < r'.kind || r.kind = r'.kind && r.tmdbId ≤ r'.tmdbId)

def Queue.pending (q : Queue) : List QueueRow := q.rows.filter fun r => r.status = .pending

def Queue.select (q : Queue) (limit : ℤ) : List Key :=
  ((q.pending.mergeSort QueueRow.before).take limit.toNat).map QueueRow.key

/-! ### A worker -/

/-- What a worker says; `Locked` and `Deferred` leave the row pending. -/
inductive Outcome
  | done
  | skipped
  | error
  | locked
  | deferred
  deriving DecidableEq

/-- The status that a result comes with; there is no result if the worker crashed. -/
def leaves : Option Outcome → Option Status
  | some .done => some .done
  | some .skipped => some .skipped
  | some .error => some .error
  | _ => none

inductive DbError
  | locked
  | other

/-- **`hydrate_row`**: the result, and the status that the row is given. What it calls may fail: to
get a connection, to fetch the details, to store them and the status – then with or without a
database error – or to store an error. -/
def hydrateRow (acquire : Except DbError Unit) (detail : Except Unit Unit)
    (persisted : Except (Option DbError) Bool) (markError : Except DbError Unit) :
    Option Outcome × Option Status :=
  match acquire with
  | .error .locked => (some .locked, none)
  | .error .other => (some .deferred, none)
  | .ok _ =>
    match detail with
    | .error _ =>
      match markError with
      | .ok _ => (some .error, some .error)
      | .error .locked => (some .locked, none)
      | .error .other => (none, none)
    | .ok _ =>
      match persisted with
      | .ok true => (some .done, some .done)
      | .ok false => (some .skipped, some .skipped)
      | .error (some .locked) => (some .locked, none)
      | .error _ =>
        match markError with
        | .ok _ => (some .error, some .error)
        | .error _ => (none, none)

def Queue.settle (q : Queue) (x : Key × Option Outcome) : Queue where
  rows := q.rows.map fun r =>
    match leaves x.2 with
    | some status => if r.key = x.1 then { r with status, attempts := r.attempts + 1 } else r
    | none => r
  nodup := by
    have hkeys : (q.rows.map fun r =>
        match leaves x.2 with
        | some status => if r.key = x.1 then { r with status, attempts := r.attempts + 1 } else r
        | none => r).map QueueRow.key = q.rows.map QueueRow.key := by
      rw [List.map_map]
      refine List.map_congr_left fun r _ => ?_
      rw [Function.comp_apply]
      rcases leaves x.2 with _ | status
      · rfl
      · dsimp only
        split_ifs <;> rfl
    rw [hkeys]
    exact q.nodup

/-! ### The loop -/

/-- **What the workers do**: the results of each batch, in the order in which they come in, one for
each row. -/
structure World where
  results : ℕ → List Key → List (Key × Option Outcome)
  perm : ∀ n keys, ((results n keys).map Prod.fst).Perm keys

structure Tally where
  done : ℕ
  skipped : ℕ
  progress : ℕ
  locked : ℕ
  deferred : ℕ
  crashed : ℕ

def Tally.add (t : Tally) (x : Key × Option Outcome) : Tally :=
  match x.2 with
  | some .done => { t with done := t.done + 1, progress := t.progress + 1 }
  | some .skipped => { t with skipped := t.skipped + 1, progress := t.progress + 1 }
  | some .error => { t with progress := t.progress + 1 }
  | some .locked => { t with locked := t.locked + 1 }
  | some .deferred => { t with deferred := t.deferred + 1 }
  | none => { t with crashed := t.crashed + 1 }

def tally (results : List (Key × Option Outcome)) : Tally :=
  results.foldl Tally.add ⟨0, 0, 0, 0, 0, 0⟩

/-- `MAX_STALLED_NO_PROGRESS_BATCHES` -/
def maxStalled : ℕ := 3

/-- `Semaphore::MAX_PERMITS`: a word less three bits. -/
def maxPermits : ℕ := 2 ^ 61 - 1

/-- How the loop ends, if it does: workers that wait for permits that never come keep it. -/
inductive End
  | ok (done skipped : ℤ)
  | failed (message : String)
  | waits
  | panics
  deriving DecidableEq

def stallMessage (stalled : ℕ) (t : Tally) : String :=
  let counts :=
    s!"\x7b'locked': {t.locked}, 'deferred': {t.deferred}, 'crashed': {t.crashed}\x7d"
  s!"hydrate made no progress for {stalled} consecutive batches ({counts})"

/-- **The loop's state**, and the batches that were processed. -/
structure Loop where
  queue : Queue
  done : ℤ
  skipped : ℤ
  stalled : ℕ
  batches : List (List (Key × Option Outcome))

variable (w : World) (concurrency : ℕ) (limit : Option ℤ)

def batchSize : ℤ := max (concurrency * 4) 64

/-- How many rows the next batch may have, none if the limit is reached. -/
def batchLimit (l : Loop) : Option ℤ :=
  match limit with
  | none => some (batchSize concurrency)
  | some limit =>
    let remaining := limit - l.done - l.skipped
    if remaining ≤ 0 then none else some (min (batchSize concurrency) remaining)

/-- The rows of a batch go to the workers, and their results are counted. -/
def process (l : Loop) (rows : List Key) : Tally × Loop :=
  let results := w.results l.batches.length rows
  let t := tally results
  (t, { queue := results.foldl Queue.settle l.queue
        done := l.done + t.done
        skipped := l.skipped + t.skipped
        stalled := if t.progress = 0 then l.stalled + 1 else 0
        batches := l.batches ++ [results] })

def body (l : Loop) : (End × Loop) ⊕ Loop :=
  match batchLimit concurrency limit l with
  | none => .inl (.ok l.done l.skipped, l)
  | some n =>
    let rows := l.queue.select n
    if rows = [] then .inl (.ok l.done l.skipped, l)
    else if concurrency = 0 then .inl (.waits, l)
    else
      let (t, l) := process w l rows
      if t.progress = 0 ∧ maxStalled ≤ l.stalled then
        .inl (.failed (stallMessage l.stalled t), l)
      else if limit.any fun limit => limit ≤ l.done + l.skipped then
        .inl (.ok l.done l.skipped, l)
      else .inr l

def iterate : ℕ → Loop → Option (End × Loop)
  | 0, _ => none
  | n + 1, l =>
    match body w concurrency limit l with
    | .inl e => some e
    | .inr l => iterate n l

/-- **`hydrate_loop`** -/
def hydrateLoop (n : ℕ) (queue : Queue) : Option (End × Loop) :=
  let l : Loop := ⟨queue, 0, 0, 0, []⟩
  if maxPermits < concurrency then some (.panics, l) else iterate w concurrency limit n l

/-! ### What a batch does -/

section Batch

variable {w : World} {q : Queue} {x : Key × Option Outcome} {results : List (Key × Option Outcome)}

def Queue.pendingKeys (q : Queue) : List Key := q.pending.map QueueRow.key

theorem leaves_ne_pending {r : Option Outcome} {status : Status} (h : leaves r = some status) :
    status ≠ .pending := by
  rcases r with _ | _ | _ | _ | _ | _ <;> cases h <;> decide

theorem pendingKeys_settle (q : Queue) (x : Key × Option Outcome) :
    (q.settle x).pendingKeys = q.pendingKeys.filter fun k => !((leaves x.2).isSome && x.1 = k) := by
  rw [Queue.pendingKeys, Queue.pendingKeys, Queue.pending, Queue.pending, Queue.settle]
  dsimp only
  induction q.rows with
  | nil => rfl
  | cons r rows ih =>
    rcases hx : leaves x.2 with _ | status
    · simp [hx] at ih ⊢
    · rw [hx] at ih
      dsimp only at ih ⊢
      have hne := leaves_ne_pending hx
      rw [List.map_cons]
      by_cases hkey : r.key = x.1
      · rw [if_pos hkey, List.filter_cons_of_neg (by simpa using hne), ih]
        by_cases hpending : r.status = .pending
        · rw [List.filter_cons_of_pos (by simpa using hpending), List.map_cons,
            List.filter_cons_of_neg (by simp [hkey])]
        · rw [List.filter_cons_of_neg (by simpa using hpending)]
      · rw [if_neg hkey]
        by_cases hpending : r.status = .pending
        · rw [List.filter_cons_of_pos (by simpa using hpending),
            List.filter_cons_of_pos (by simpa using hpending), List.map_cons, List.map_cons, ih,
            List.filter_cons_of_pos (by simp [Ne.symm hkey])]
        · rw [List.filter_cons_of_neg (by simpa using hpending),
            List.filter_cons_of_neg (by simpa using hpending), ih]

/-- **What is pending after a batch**: what was before, less what left. -/
theorem pendingKeys_foldl : ∀ (results : List (Key × Option Outcome)) (q : Queue),
    (results.foldl Queue.settle q).pendingKeys =
      q.pendingKeys.filter fun k => results.all fun x => !((leaves x.2).isSome && x.1 = k)
  | [], q => by simp
  | x :: results, q => by
    rw [List.foldl_cons, pendingKeys_foldl results, pendingKeys_settle, List.filter_filter]
    refine List.filter_congr fun k _ => ?_
    rw [List.all_cons, Bool.and_comm]

theorem nodup_pendingKeys (q : Queue) : q.pendingKeys.Nodup :=
  q.nodup.sublist (List.filter_sublist.map _)

theorem length_select_le (q : Queue) (n : ℤ) : (q.select n).length ≤ n.toNat := by
  rw [Queue.select, List.length_map]
  exact List.length_take_le ..

/-- **The rows of a batch are pending**, and different. -/
theorem select_subperm (q : Queue) (n : ℤ) :
    (q.select n).Nodup ∧ ∀ k ∈ q.select n, k ∈ q.pendingKeys := by
  have hperm : ((q.pending.mergeSort QueueRow.before).map QueueRow.key).Perm q.pendingKeys :=
    (List.mergeSort_perm _ _).map _
  have hsub : List.Sublist (q.select n)
      ((q.pending.mergeSort QueueRow.before).map QueueRow.key) := (List.take_sublist ..).map _
  exact ⟨(hperm.nodup_iff.mpr (nodup_pendingKeys q)).sublist hsub,
    fun k hk => hperm.mem_iff.mp (hsub.mem hk)⟩

theorem select_eq_nil {n : ℤ} (hn : 0 < n) (h : q.select n = []) : q.pendingKeys = [] := by
  have hlen := congrArg List.length h
  rw [Queue.select, List.length_map, List.length_take, List.length_mergeSort,
    List.length_nil] at hlen
  have hzero : q.pending.length = 0 := by omega
  rw [Queue.pendingKeys, List.eq_nil_of_length_eq_zero hzero, List.map_nil]

/-! ### What is counted -/

theorem tally_foldl : ∀ (results : List (Key × Option Outcome)) (t : Tally),
    (results.foldl Tally.add t).progress =
        t.progress + results.countP (fun x => (leaves x.2).isSome) ∧
      (results.foldl Tally.add t).done + (results.foldl Tally.add t).skipped ≤
        t.done + t.skipped + results.length
  | [], t => ⟨rfl, Nat.le_refl _⟩
  | x :: results, t => by
    obtain ⟨hprogress, hcounted⟩ := tally_foldl results (t.add x)
    have hone : (t.add x).progress = t.progress + (if (leaves x.2).isSome then 1 else 0) ∧
        (t.add x).done + (t.add x).skipped ≤ t.done + t.skipped + 1 := by
      obtain ⟨k, r⟩ := x
      rcases r with _ | _ | _ | _ | _ | _ <;> simp [Tally.add, leaves] <;> omega
    rw [List.foldl_cons, List.countP_cons, List.length_cons]
    exact ⟨by omega, by omega⟩

theorem progress_tally (results : List (Key × Option Outcome)) :
    (tally results).progress = results.countP fun x => (leaves x.2).isSome := by
  rw [tally, (tally_foldl results _).1, Nat.zero_add]

theorem counted_le (results : List (Key × Option Outcome)) :
    (tally results).done + (tally results).skipped ≤ results.length := by
  have h := (tally_foldl results ⟨0, 0, 0, 0, 0, 0⟩).2
  rwa [Nat.add_zero, Nat.zero_add] at h

/-- **A batch with progress makes the queue shorter.** -/
theorem length_pendingKeys_lt {keys : List Key} (hkeys : ∀ k ∈ keys, k ∈ q.pendingKeys)
    (hperm : (results.map Prod.fst).Perm keys) (hprogress : (tally results).progress ≠ 0) :
    (results.foldl Queue.settle q).pendingKeys.length < q.pendingKeys.length := by
  rw [progress_tally, ← Nat.pos_iff_ne_zero, List.countP_pos_iff] at hprogress
  obtain ⟨x, hx, hleaves⟩ := hprogress
  rw [pendingKeys_foldl]
  refine List.length_filter_lt_length_iff_exists.mpr ⟨x.1, ?_, ?_⟩
  · exact hkeys _ (hperm.mem_iff.mp (List.mem_map_of_mem hx))
  · intro hall
    have hx := List.all_eq_true.mp hall x hx
    simp [hleaves] at hx

theorem length_pendingKeys_le :
    (results.foldl Queue.settle q).pendingKeys.length ≤ q.pendingKeys.length := by
  rw [pendingKeys_foldl]
  exact List.length_filter_le ..

end Batch

/-! ### What the loop keeps -/

section Kept

variable {w : World} {concurrency : ℕ} {limit : Option ℤ} {l : Loop}

/-- A batch in which no title left the queue. -/
def Stalled (b : List (Key × Option Outcome)) : Bool := b.all fun x => (leaves x.2).isNone

/-- How many of the last batches in a row were of that kind. -/
def trailing (batches : List (List (Key × Option Outcome))) : ℕ :=
  (batches.reverse.takeWhile Stalled).length

theorem trailing_concat (batches : List (List (Key × Option Outcome)))
    (b : List (Key × Option Outcome)) :
    trailing (batches ++ [b]) = if Stalled b then trailing batches + 1 else 0 := by
  rw [trailing, List.reverse_append, List.reverse_singleton, List.singleton_append,
    List.takeWhile_cons]
  split_ifs
  · rfl
  · rfl

theorem stalled_iff (b : List (Key × Option Outcome)) :
    Stalled b = true ↔ (tally b).progress = 0 := by
  rw [progress_tally, List.countP_eq_zero, Stalled, List.all_eq_true]
  simp

/-- A title that left the queue with one batch is not in another. -/
def NotAgain (b b' : List (Key × Option Outcome)) : Prop :=
  ∀ x ∈ b, (leaves x.2).isSome → x.1 ∉ b'.map Prod.fst

/-- **What the loop keeps**: the stalled batches are counted since the last progress, the limit is
not exceeded, and what left the queue is not pending and was not processed again. -/
structure Kept (limit : Option ℤ) (l : Loop) : Prop where
  stalled : l.stalled = trailing l.batches
  bound : ∀ n, limit = some n → l.done + l.skipped ≤ max n 0
  gone : ∀ b ∈ l.batches, ∀ x ∈ b, (leaves x.2).isSome → x.1 ∉ l.queue.pendingKeys
  once : l.batches.Pairwise NotAgain
  nodup : ∀ b ∈ l.batches, (b.map Prod.fst).Nodup

theorem kept_start (queue : Queue) (limit : Option ℤ) : Kept limit ⟨queue, 0, 0, 0, []⟩ where
  stalled := rfl
  bound n _ := le_max_right n 0
  gone _ hb := absurd hb List.not_mem_nil
  once := .nil
  nodup _ hb := absurd hb List.not_mem_nil

theorem batchLimit_spec {n : ℤ} (h : batchLimit concurrency limit l = some n) :
    0 < n ∧ ∀ m, limit = some m → l.done + l.skipped + n ≤ m := by
  rcases limit with _ | m
  · obtain rfl := Option.some.inj h
    refine ⟨?_, by rintro m ⟨⟩⟩
    rw [batchSize]
    omega
  · rw [batchLimit] at h
    split at h
    · cases h
    · next hpos =>
      obtain rfl := Option.some.inj h
      have hsize : 0 < batchSize concurrency := by
        rw [batchSize]
        omega
      refine ⟨by omega, ?_⟩
      rintro m' ⟨⟩
      omega

/-- **A batch keeps it.** -/
theorem Kept.process (h : Kept limit l) {n : ℤ} (hn : batchLimit concurrency limit l = some n) :
    Kept limit (process w l (l.queue.select n)).2 := by
  obtain ⟨hpos, hroom⟩ := batchLimit_spec hn
  obtain ⟨hnodup, hpending⟩ := select_subperm l.queue n
  have hlen := length_select_le l.queue n
  rw [Hydrate.process]
  set results := w.results l.batches.length (l.queue.select n) with hresults
  have hperm : (results.map Prod.fst).Perm (l.queue.select n) := w.perm ..
  constructor
  · dsimp only
    rw [trailing_concat, h.stalled]
    exact if_congr (stalled_iff results).symm rfl rfl
  · intro m hm
    have hcounted := counted_le results
    have hsize : results.length = (l.queue.select n).length := by
      rw [← hperm.length_eq, List.length_map]
    have hroom := hroom m hm
    dsimp only
    omega
  · intro b hb x hx hleaves
    dsimp only at hb ⊢
    rw [pendingKeys_foldl, List.mem_filter]
    rintro ⟨hmem, hall⟩
    rcases List.mem_append.mp hb with hb | hb
    · exact h.gone b hb x hx hleaves hmem
    · rw [List.mem_singleton.mp hb] at hx
      have hx := List.all_eq_true.mp hall x hx
      simp [hleaves] at hx
  · refine List.pairwise_append.mpr ⟨h.once, List.pairwise_singleton .., ?_⟩
    intro b hb b' hb' x hx hleaves hmem
    rw [List.mem_singleton.mp hb'] at hmem
    exact h.gone b hb x hx hleaves (hpending _ (hperm.mem_iff.mp hmem))
  · intro b hb
    rcases List.mem_append.mp hb with hb | hb
    · exact h.nodup b hb
    · rw [List.mem_singleton.mp hb]
      exact hperm.nodup_iff.mpr hnodup

/-- **How the loop may end**: with the counts, when nothing is pending or the limit is reached; or
with an error, after three batches in a row in which no title left the queue. -/
def Ends (limit : Option ℤ) (e : End) (l : Loop) : Prop :=
  (e = .ok l.done l.skipped ∧ trailing l.batches < maxStalled ∧
      (l.queue.pendingKeys = [] ∨ ∃ n, limit = some n ∧ n ≤ l.done + l.skipped)) ∨
    (∃ t, e = .failed (stallMessage 3 t)) ∧ trailing l.batches = maxStalled

/-- What is left to do: batches with progress, of which each allows three without. -/
def left (l : Loop) : ℕ := 3 * l.queue.pendingKeys.length + (3 - l.stalled)

theorem le_counted_of_batchLimit (h : batchLimit concurrency limit l = none) :
    ∃ n, limit = some n ∧ n ≤ l.done + l.skipped := by
  rcases limit with _ | n
  · cases h
  · refine ⟨n, rfl, ?_⟩
    rw [batchLimit] at h
    split at h
    · omega
    · cases h

/-- **A batch that is not the third in a row without progress leaves less to do.** -/
theorem left_process_lt (n : ℤ) (hstalled : l.stalled < maxStalled)
    (hgoes : ¬ ((process w l (l.queue.select n)).1.progress = 0 ∧
      maxStalled ≤ (process w l (l.queue.select n)).2.stalled)) :
    (process w l (l.queue.select n)).2.stalled < maxStalled ∧
      left (process w l (l.queue.select n)).2 < left l := by
  have hperm := w.perm l.batches.length (l.queue.select n)
  have hpending := (select_subperm l.queue n).2
  have hcount : (process w l (l.queue.select n)).2.stalled =
      if (process w l (l.queue.select n)).1.progress = 0 then l.stalled + 1 else 0 := rfl
  rw [left, left]
  rw [maxStalled] at hstalled
  by_cases hzero : (process w l (l.queue.select n)).1.progress = 0
  · -- it is stalled, and the queue has not become longer
    have hfew := Nat.lt_of_not_le fun hle => hgoes ⟨hzero, hle⟩
    have hlen : (process w l (l.queue.select n)).2.queue.pendingKeys.length ≤
        l.queue.pendingKeys.length := length_pendingKeys_le
    rw [if_pos hzero] at hcount
    exact ⟨hfew, by omega⟩
  · -- a title has left the queue, which makes up for the count
    have hlen : (process w l (l.queue.select n)).2.queue.pendingKeys.length <
        l.queue.pendingKeys.length := length_pendingKeys_lt hpending hperm hzero
    rw [if_neg hzero] at hcount
    rw [hcount]
    exact ⟨by decide, by omega⟩

theorem ends_of_stalled {t : Tally} (h : Kept limit l) (hthree : l.stalled = maxStalled) :
    Ends limit (.failed (stallMessage l.stalled t)) l := by
  refine .inr ⟨⟨t, ?_⟩, ?_⟩
  · rw [hthree]
    rfl
  · rw [← h.stalled, hthree]

/-- **A batch ends the loop as it may, or leaves less to do.** -/
theorem Kept.body (h : Kept limit l) (hstalled : l.stalled < maxStalled)
    (hconcurrency : concurrency ≠ 0) :
    (∃ e l', body w concurrency limit l = .inl (e, l') ∧ Kept limit l' ∧ Ends limit e l') ∨
      ∃ l', Hydrate.body w concurrency limit l = .inr l' ∧ Kept limit l' ∧
        l'.stalled < maxStalled ∧ left l' < left l := by
  have htrailing : trailing l.batches < maxStalled := h.stalled ▸ hstalled
  rw [Hydrate.body]
  rcases hn : batchLimit concurrency limit l with _ | n
  · -- the limit is reached already
    exact .inl ⟨_, l, rfl, h, .inl ⟨rfl, htrailing, .inr (le_counted_of_batchLimit hn)⟩⟩
  dsimp only
  by_cases hnil : l.queue.select n = []
  · -- nothing is pending
    rw [if_pos hnil]
    have hdrained := select_eq_nil (batchLimit_spec hn).1 hnil
    exact .inl ⟨_, l, rfl, h, .inl ⟨rfl, htrailing, .inl hdrained⟩⟩
  rw [if_neg hnil, if_neg hconcurrency]
  have hkept := h.process (w := w) hn
  have hless := left_process_lt (w := w) n hstalled
  have hcount : (Hydrate.process w l (l.queue.select n)).2.stalled ≤ l.stalled + 1 := by
    rw [Hydrate.process]
    dsimp only
    split_ifs <;> omega
  set t := (Hydrate.process w l (l.queue.select n)).1
  set l' := (Hydrate.process w l (l.queue.select n)).2
  by_cases hfail : t.progress = 0 ∧ maxStalled ≤ l'.stalled
  · -- the third in a row
    rw [if_pos hfail]
    have hthree : l'.stalled = maxStalled := Nat.le_antisymm (hcount.trans hstalled) hfail.2
    exact .inl ⟨_, l', rfl, hkept, ends_of_stalled hkept hthree⟩
  rw [if_neg hfail]
  obtain ⟨hfew, hleft⟩ := hless hfail
  by_cases hlimit : (limit.any fun limit => limit ≤ l'.done + l'.skipped) = true
  · -- the limit is reached with this batch
    rw [if_pos hlimit]
    refine .inl ⟨_, l', rfl, hkept, .inl ⟨rfl, hkept.stalled ▸ hfew, .inr ?_⟩⟩
    rcases limit with _ | m
    · cases hlimit
    · exact ⟨m, rfl, of_decide_eq_true hlimit⟩
  · rw [if_neg hlimit]
    exact .inr ⟨l', rfl, hkept, hfew, hleft⟩

/-- **The loop ends**, after fewer batches than what there is to do. -/
theorem Kept.iterate (hconcurrency : concurrency ≠ 0) : ∀ (n : ℕ) {l : Loop}, Kept limit l →
    l.stalled < maxStalled → left l < n →
    ∃ e l', iterate w concurrency limit n l = some (e, l') ∧ Kept limit l' ∧ Ends limit e l'
  | 0, _, _, _, hn => absurd hn (Nat.not_lt_zero _)
  | n + 1, l, h, hstalled, hn => by
    rw [Hydrate.iterate]
    rcases h.body (w := w) hstalled hconcurrency with
      ⟨e, l', hbody, hkept, hends⟩ | ⟨l', hbody, hkept, hfew, hless⟩
    · rw [hbody]
      exact ⟨e, l', rfl, hkept, hends⟩
    · rw [hbody]
      exact Kept.iterate hconcurrency n hkept hfew (by omega)

/-- **The loop ends, whatever the workers do**: with the counts, when nothing is pending or the
limit is reached, which it does not exceed; or with an error, after three batches in a row in which
no title left the queue. No title that left the queue is processed again. -/
theorem hydrateLoop_ends (w : World) (queue : Queue) (limit : Option ℤ) (concurrency : ℕ)
    (hpos : 1 ≤ concurrency) (hmax : concurrency ≤ maxPermits) :
    ∃ e l, hydrateLoop w concurrency limit (3 * queue.pendingKeys.length + 4) queue =
        some (e, l) ∧ Ends limit e l ∧
      (∀ n, limit = some n → l.done + l.skipped ≤ max n 0) ∧
      l.batches.Pairwise NotAgain ∧ ∀ b ∈ l.batches, (b.map Prod.fst).Nodup := by
  have hstart := kept_start queue limit
  obtain ⟨e, l, hrun, hkept, hends⟩ := hstart.iterate (w := w) (Nat.ne_of_gt hpos)
    (3 * queue.pendingKeys.length + 4) (Nat.zero_lt_succ _) (Nat.lt_succ_self _)
  refine ⟨e, l, ?_, hends, hkept.bound, hkept.once, hkept.nodup⟩
  rw [hydrateLoop, if_neg (Nat.not_lt.mpr hmax)]
  exact hrun

end Kept

/-! ### A queue of one title -/

def allDone : World where
  results _ keys := keys.map fun k => (k, some .done)
  perm _ keys := by
    rw [List.map_map]
    exact .of_eq (List.map_id keys)

def oneTitle : Queue := ⟨[⟨603, "movie", .pending, 0⟩], by decide⟩

theorem hydrateLoop_oneTitle : ∃ e l, hydrateLoop allDone 8 none 7 oneTitle = some (e, l) ∧
    Ends none e l :=
  let ⟨e, l, hrun, hends, _⟩ := hydrateLoop_ends allDone oneTitle none 8 (by decide) (by decide)
  ⟨e, l, hrun, hends⟩

/-- **Without permits the loop does not end, and a limit below zero is exceeded.** -/
theorem hydrateLoop_waits :
    (hydrateLoop allDone 0 none 7 oneTitle).map Prod.fst = some .waits ∧
      (hydrateLoop allDone 8 (some (-1)) 7 oneTitle).map Prod.fst = some (.ok 0 0) ∧
      ¬ (0 + 0 : ℤ) ≤ -1 := by
  decide +kernel

end EmeraldExchange.Recommender.Hydrate
