import EmeraldExchange.Lib.Runs
import EmeraldExchange.Lib.Table

/-!
# One mutex a key

`ItemLocks` serialises what is done under one key. A map gives each key in use a mutex; a task takes
a clone of it, waits for it, runs its body under it, and afterwards removes the entry if nobody else
holds a clone. The removal is what has to be right: were the entry of a mutex that someone still
holds removed, the next task would get another mutex, and two bodies would run at once. They never
do (`ItemLocks.runningWith_le_one`).

A mutex is known by a number, and its clones are the entry of the map and the tasks that have it. A
task may be dropped while it waits or runs; what its body does is left open.
-/

namespace EmeraldExchange.Gateway

variable {κ β : Type}

/-- Where a task is in `run`. -/
inductive LockPhase (β : Type)
  /-- It has cloned the mutex. -/
  | waiting (b : β)
  /-- It holds the mutex, and this is what is left of its body. -/
  | running (b : β)
  /-- The mutex is released. -/
  | released
  /-- The entry is removed or kept; the clone is about to be dropped. -/
  | leaving
  deriving DecidableEq

/-- A task in `run`. -/
structure LockTask (κ β : Type) where
  key : κ
  lock : ℕ
  phase : LockPhase β
  deriving DecidableEq

def LockTask.running (t : LockTask κ β) : Bool :=
  match t.phase with
  | .running _ => true
  | _ => false

def LockTask.leaves (t : LockTask κ β) : Bool :=
  match t.phase with
  | .leaving => true
  | _ => false

/-- **The locks**: the map, the number of the next mutex, and the tasks in `run`. -/
structure ItemLocks (κ β : Type) where
  map : Table κ ℕ
  fresh : ℕ
  tasks : List (LockTask κ β)

inductive LockAct (κ β : Type)
  /-- A task with a body comes, and clones the mutex of its key. -/
  | arrive (key : κ) (b : β)
  /-- A waiting task gets its mutex. -/
  | acquire (n : ℕ)
  /-- A body goes on. -/
  | goOn (n : ℕ) (b : β)
  /-- A body is over. -/
  | finish (n : ℕ)
  | cleanUp (n : ℕ)
  | leave (n : ℕ)
  /-- A task that waits or runs is dropped. -/
  | drop (n : ℕ)

theorem leaves_of_running {t : LockTask κ β} (h : t.running = true) : t.leaves = false := by
  rcases t with ⟨key, lock, _ | _ | _ | _⟩
  case running => rfl
  all_goals exact absurd h Bool.false_ne_true

namespace ItemLocks

/-- Nobody is in `run`. -/
def start : ItemLocks κ β := ⟨∅, 0, []⟩

def strongCount (s : ItemLocks κ β) (lock : ℕ) : ℕ :=
  s.map.values.count lock + s.tasks.countP fun t => t.lock = lock

def setPhase (s : ItemLocks κ β) (n : ℕ) (t : LockTask κ β) (phase : LockPhase β) : ItemLocks κ β :=
  { s with tasks := s.tasks.set n { t with phase } }

variable [DecidableEq κ]

/-- **One step.** -/
def step (s : ItemLocks κ β) : LockAct κ β → Option (ItemLocks κ β)
  | .arrive key b =>
    match s.map.lookup key with
    | some lock => some { s with tasks := s.tasks ++ [⟨key, lock, .waiting b⟩] }
    | none => some
      { map := s.map.insert key s.fresh
        fresh := s.fresh + 1
        tasks := s.tasks ++ [⟨key, s.fresh, .waiting b⟩] }
  | .acquire n =>
    match s.tasks[n]? with
    | some t =>
      match t.phase with
      | .waiting b =>
        if s.tasks.any fun t' => t'.running && t'.lock = t.lock then none
        else some (s.setPhase n t (.running b))
      | _ => none
    | none => none
  | .goOn n b =>
    match s.tasks[n]? with
    | some t => if t.running then some (s.setPhase n t (.running b)) else none
    | none => none
  | .finish n =>
    match s.tasks[n]? with
    | some t => if t.running then some (s.setPhase n t .released) else none
    | none => none
  | .cleanUp n =>
    match s.tasks[n]? with
    | some t =>
      match t.phase with
      | .released =>
        -- the map and this clone are the only holders: nobody is waiting
        let map := if s.strongCount t.lock = 2 then s.map.erase t.key else s.map
        some { s.setPhase n t .leaving with map }
      | _ => none
    | none => none
  | .leave n =>
    match s.tasks[n]? with
    | some t => if t.leaves then some { s with tasks := s.tasks.eraseIdx n } else none
    | none => none
  | .drop n =>
    match s.tasks[n]? with
    | some t =>
      match t.phase with
      | .waiting _ => some { s with tasks := s.tasks.eraseIdx n }
      | .running _ => some { s with tasks := s.tasks.eraseIdx n }
      | _ => none
    | none => none

def runningWith (s : ItemLocks κ β) (key : κ) : ℕ :=
  s.tasks.countP fun t => t.running && t.key = key

def Idle (s : ItemLocks κ β) (key : κ) : Prop := ∀ t ∈ s.tasks, t.key = key → t.running = false

/-- **What keeps two bodies apart**: a task that may still need its mutex has the one of its key in
the map, and under one mutex one body runs. -/
structure Exclusive (s : ItemLocks κ β) : Prop where
  entry : ∀ t ∈ s.tasks, t.leaves = false → s.map.lookup t.key = some t.lock
  single : ∀ lock, s.tasks.countP (fun t => t.running && t.lock = lock) ≤ 1

/-! ### Counting tasks -/

omit [DecidableEq κ] in
theorem countP_set {α : Type} {l : List α} {n : ℕ} {a : α} (h : l[n]? = some a) (b : α)
    (p : α → Bool) : (l.set n b).countP p + (if p a then 1 else 0) =
      l.countP p + if p b then 1 else 0 := by
  obtain ⟨hlt, rfl⟩ := List.getElem?_eq_some_iff.mp h
  have hpos : (if p l[n] then 1 else 0) ≤ l.countP p := by
    split
    · next hp => exact List.countP_pos_iff.mpr ⟨l[n], List.getElem_mem hlt, hp⟩
    · exact Nat.zero_le _
  rw [List.countP_set hlt]
  omega

omit [DecidableEq κ] in
theorem eq_of_countP_le_one {α : Type} {l : List α} {p : α → Bool} (h : l.countP p ≤ 1) {a b : α}
    (ha : a ∈ l) (hb : b ∈ l) (hpa : p a) (hpb : p b) : a = b := by
  rw [List.countP_eq_length_filter] at h
  have ha' := List.mem_filter.mpr ⟨ha, hpa⟩
  have hb' := List.mem_filter.mpr ⟨hb, hpb⟩
  rcases hl : l.filter p with _ | ⟨c, _ | ⟨d, l'⟩⟩
  · exact absurd ha' (by simp [hl])
  · rw [hl] at ha' hb'
    rw [List.mem_singleton.mp ha', List.mem_singleton.mp hb']
  · rw [hl] at h
    exact absurd h (by simp)

omit [DecidableEq κ] in
theorem mem_set_of_ne {α : Type} {l : List α} {n : ℕ} {a b : α} (h : l[n]? = some a) (hb : b ∈ l)
    (hne : b ≠ a) (c : α) : b ∈ l.set n c := by
  obtain ⟨i, hi⟩ := List.mem_iff_getElem?.mp hb
  have hin : n ≠ i := by
    rintro rfl
    exact hne (Option.some.inj (hi.symm.trans h))
  exact List.mem_of_getElem? ((List.getElem?_set_ne hin).trans hi)

variable {s t : ItemLocks κ β}

/-- **One body runs under a key.** -/
theorem Exclusive.runningWith_le (h : Exclusive s) (key : κ) : runningWith s key ≤ 1 := by
  by_cases hrun : ∃ u ∈ s.tasks, u.running ∧ u.key = key
  · -- all that run under the key have the mutex of its entry
    obtain ⟨u, hu, hrunning, rfl⟩ := hrun
    have hlock : ∀ v ∈ s.tasks, v.running = true → s.map.lookup v.key = some v.lock := by
      refine fun v hv hv' => h.entry v hv ?_
      exact leaves_of_running hv'
    refine le_trans (List.countP_mono_left fun v hv hv' => ?_) (h.single u.lock)
    simp only [Bool.and_eq_true, decide_eq_true_eq] at hv' ⊢
    refine ⟨hv'.1, ?_⟩
    have hsame := (hlock v hv hv'.1).symm.trans ((congrArg s.map.lookup hv'.2).trans
      (hlock u hu hrunning))
    exact Option.some.inj hsame
  · refine le_of_eq_of_le (List.countP_eq_zero.mpr fun u hu hu' => hrun ⟨u, hu, ?_⟩) (Nat.zero_le _)
    simpa using hu'

theorem exclusive_start : Exclusive (start : ItemLocks κ β) :=
  ⟨fun _ h => absurd h (by simp [start]), fun _ => by simp [start]⟩

theorem Exclusive.setPhase (h : Exclusive s) {n : ℕ} {u : LockTask κ β}
    (hu : s.tasks[n]? = some u) {phase : LockPhase β}
    (hleaves : ({ u with phase } : LockTask κ β).leaves = false → u.leaves = false)
    (hrunning : ({ u with phase } : LockTask κ β).running = true → u.running = true ∨
      s.tasks.countP (fun v => v.running && v.lock = u.lock) = 0) :
    Exclusive (s.setPhase n u phase) := by
  constructor
  · intro v hv hv'
    rcases List.mem_or_eq_of_mem_set hv with hold | rfl
    · exact h.entry v hold hv'
    · exact h.entry u (List.mem_of_getElem? hu) (hleaves hv')
  · intro lock
    have hcount := countP_set hu { u with phase } fun v => v.running && v.lock = lock
    have hle := h.single lock
    show (s.tasks.set n { u with phase }).countP _ ≤ 1
    rcases eq_or_ne u.lock lock with rfl | hne
    · simp only [decide_true, Bool.and_true] at hcount
      split at hcount <;> split at hcount
      · omega
      · omega
      · next hno hyes =>
        have hzero := (hrunning hyes).resolve_left (by simpa using hno)
        omega
      · omega
    · simp only [hne, decide_false, Bool.and_false, Bool.false_eq_true, if_false] at hcount
      omega

theorem Exclusive.eraseIdx (h : Exclusive s) (n : ℕ) :
    Exclusive { s with tasks := s.tasks.eraseIdx n } :=
  ⟨fun u hu => h.entry u (List.mem_of_mem_eraseIdx hu),
    fun lock => le_trans (List.eraseIdx_sublist ..).countP_le (h.single lock)⟩

/-- **The entry that is removed is nobody's**: only the task that removes it has a clone. -/
theorem Exclusive.cleanUp (h : Exclusive s) {n : ℕ} {u : LockTask κ β}
    (hu : s.tasks[n]? = some u) (hleaves : u.leaves = false) (hcount : s.strongCount u.lock = 2) :
    Exclusive { s.setPhase n u .leaving with map := s.map.erase u.key } := by
  have hset : Exclusive (s.setPhase n u .leaving) := by
    refine h.setPhase hu (fun _ => hleaves) fun hno => ?_
    exact absurd hno Bool.false_ne_true
  refine ⟨fun v hv hv' => ?_, hset.single⟩
  have hentry := hset.entry v hv hv'
  -- the map has one clone and this task the other
  have hmap : 0 < s.map.values.count u.lock := List.count_pos_iff.mpr
    (Table.mem_values_of_lookup (h.entry u (List.mem_of_getElem? hu) hleaves))
  have hone : (s.setPhase n u .leaving).tasks.countP (fun v => v.lock = u.lock) ≤ 1 := by
    have hset := countP_set hu { u with phase := .leaving } fun v => v.lock = u.lock
    simp only [decide_true, if_true] at hset
    show (s.tasks.set n { u with phase := .leaving }).countP _ ≤ 1
    unfold strongCount at hcount
    omega
  have hne : v.key ≠ u.key := by
    intro heq
    have hlock : v.lock = u.lock := Option.some.inj (hentry.symm.trans
      ((congrArg s.map.lookup heq).trans (h.entry u (List.mem_of_getElem? hu) hleaves)))
    obtain ⟨hlt, -⟩ := List.getElem?_eq_some_iff.mp hu
    have hmem : ({ u with phase := .leaving } : LockTask κ β) ∈ s.tasks.set n _ :=
      List.mem_set hlt _
    obtain rfl := eq_of_countP_le_one hone hv hmem (by simpa using hlock) (by simp)
    exact absurd hv'.symm Bool.false_ne_true
  exact (AList.lookup_erase_ne hne).trans hentry

theorem Exclusive.arrive (h : Exclusive s) {key : κ} {b : β} {lock : ℕ} {map : Table κ ℕ}
    {fresh : ℕ} (hkey : map.lookup key = some lock)
    (hmap : ∀ u ∈ s.tasks, u.leaves = false → map.lookup u.key = s.map.lookup u.key) :
    Exclusive ⟨map, fresh, s.tasks ++ [⟨key, lock, .waiting b⟩]⟩ := by
  constructor
  · intro u hu hu'
    rcases List.mem_append.mp hu with hold | hnew
    · exact (hmap u hold hu').trans (h.entry u hold hu')
    · obtain rfl := List.mem_singleton.mp hnew
      exact hkey
  · intro lock'
    simpa [LockTask.running] using h.single lock'

/-! ### What a step does -/

theorem step_arrive {key : κ} {b : β} (h : step s (.arrive key b) = some t) :
    ∃ map fresh lock, t = ⟨map, fresh, s.tasks ++ [⟨key, lock, .waiting b⟩]⟩ ∧
      map.lookup key = some lock ∧
      (map = s.map ∨ s.map.lookup key = none ∧ map = s.map.insert key lock) := by
  simp only [step] at h
  split at h
  · next lock hlock =>
    exact ⟨s.map, s.fresh, lock, (Option.some.inj h).symm, hlock, Or.inl rfl⟩
  · next hnone =>
    exact ⟨_, _, s.fresh, (Option.some.inj h).symm, AList.lookup_insert _, Or.inr ⟨hnone, rfl⟩⟩

theorem step_acquire {n : ℕ} (h : step s (.acquire n) = some t) :
    ∃ u b, s.tasks[n]? = some u ∧ u.phase = .waiting b ∧
      s.tasks.countP (fun v => v.running && v.lock = u.lock) = 0 ∧
      t = s.setPhase n u (.running b) := by
  simp only [step] at h
  split at h
  · next u hu =>
    split at h
    · next b hphase =>
      obtain ⟨hfree, h⟩ := Option.ite_none_left_eq_some.mp h
      refine ⟨u, b, hu, hphase, ?_, (Option.some.inj h).symm⟩
      exact List.countP_eq_zero.mpr fun v hv hv' => hfree (List.any_eq_true.mpr ⟨v, hv, hv'⟩)
    · exact absurd h (by simp)
  · exact absurd h (by simp)

theorem step_goOn {n : ℕ} {b : β} (h : step s (.goOn n b) = some t) :
    ∃ u, s.tasks[n]? = some u ∧ u.running = true ∧ t = s.setPhase n u (.running b) := by
  simp only [step] at h
  split at h
  · next u hu =>
    obtain ⟨hrunning, h⟩ := Option.ite_none_right_eq_some.mp h
    exact ⟨u, hu, hrunning, (Option.some.inj h).symm⟩
  · exact absurd h (by simp)

theorem step_finish {n : ℕ} (h : step s (.finish n) = some t) :
    ∃ u, s.tasks[n]? = some u ∧ u.running = true ∧ t = s.setPhase n u .released := by
  simp only [step] at h
  split at h
  · next u hu =>
    obtain ⟨hrunning, h⟩ := Option.ite_none_right_eq_some.mp h
    exact ⟨u, hu, hrunning, (Option.some.inj h).symm⟩
  · exact absurd h (by simp)

theorem step_cleanUp {n : ℕ} (h : step s (.cleanUp n) = some t) :
    ∃ u, s.tasks[n]? = some u ∧ u.phase = .released ∧ t = { s.setPhase n u .leaving with
      map := if s.strongCount u.lock = 2 then s.map.erase u.key else s.map } := by
  simp only [step] at h
  split at h
  · next u hu =>
    split at h
    · next hphase => exact ⟨u, hu, hphase, (Option.some.inj h).symm⟩
    · exact absurd h (by simp)
  · exact absurd h (by simp)

theorem step_leave {n : ℕ} (h : step s (.leave n) = some t) :
    ∃ u, s.tasks[n]? = some u ∧ u.leaves = true ∧ t = { s with tasks := s.tasks.eraseIdx n } := by
  simp only [step] at h
  split at h
  · next u hu =>
    obtain ⟨hleaves, h⟩ := Option.ite_none_right_eq_some.mp h
    exact ⟨u, hu, hleaves, (Option.some.inj h).symm⟩
  · exact absurd h (by simp)

theorem step_drop {n : ℕ} (h : step s (.drop n) = some t) :
    t = { s with tasks := s.tasks.eraseIdx n } := by
  simp only [step] at h
  split at h
  · split at h
    · exact (Option.some.inj h).symm
    · exact (Option.some.inj h).symm
    · exact absurd h (by simp)
  · exact absurd h (by simp)

/-- **Every step keeps two bodies apart.** -/
theorem Exclusive.step (h : Exclusive s) {a : LockAct κ β} (hstep : step s a = some t) :
    Exclusive t := by
  rcases a with ⟨key, b⟩ | n | ⟨n, b⟩ | n | n | n | n
  · obtain ⟨map, fresh, lock, rfl, hkey, hmap⟩ := step_arrive hstep
    refine h.arrive hkey fun u hu hu' => ?_
    rcases hmap with rfl | ⟨hnone, rfl⟩
    · rfl
    · refine AList.lookup_insert_ne ?_
      rintro rfl
      exact absurd (h.entry u hu hu') (by simp [hnone])
  · obtain ⟨u, b, hu, hphase, hfree, rfl⟩ := step_acquire hstep
    exact h.setPhase hu (fun _ => by simp [LockTask.leaves, hphase]) fun _ => Or.inr hfree
  · obtain ⟨u, hu, hrunning, rfl⟩ := step_goOn hstep
    exact h.setPhase hu (fun _ => leaves_of_running hrunning) fun _ => Or.inl hrunning
  · obtain ⟨u, hu, hrunning, rfl⟩ := step_finish hstep
    exact h.setPhase hu (fun _ => leaves_of_running hrunning) fun _ => Or.inl hrunning
  · obtain ⟨u, hu, hphase, rfl⟩ := step_cleanUp hstep
    have hleaves : u.leaves = false := by simp [LockTask.leaves, hphase]
    by_cases hcount : s.strongCount u.lock = 2
    · simp only [hcount, if_true]
      exact h.cleanUp hu hleaves hcount
    · simp only [hcount, if_false]
      exact h.setPhase hu (fun _ => hleaves) fun hno => absurd hno Bool.false_ne_true
  · obtain ⟨-, -, -, rfl⟩ := step_leave hstep
    exact h.eraseIdx n
  · rw [step_drop hstep]
    exact h.eraseIdx n

/-- **Two bodies of one key never run at once**, whoever comes, waits, is dropped or cleans up in
whatever order. -/
theorem runningWith_le_one (h : Runs step anyStep start s) (key : κ) : runningWith s key ≤ 1 := by
  have hexclusive : Exclusive s := h.invariant exclusive_start
    fun _ _ _ hv _ hstep => hv.step hstep
  exact hexclusive.runningWith_le key

end ItemLocks

end EmeraldExchange.Gateway
