import EmeraldExchange.Lib.Runs
import Mathlib.Data.List.Count
import Mathlib.Data.Nat.Basic
import Mathlib.Order.MinMax

/-!
# The transcode limiter

`Limiter::try_acquire` and the drop of its `Permit` (`crates/transcoder/src/concurrency.rs`): a
processor transcode takes a slot of the scarce counter first and one of the global counter second,
and gives the first back where the second is full. Nothing locks the two together; each counter
moves by compare-and-swap and by subtraction alone.

A *task* is one call of `try_acquire` together with the permit it returns, and one action is one
atomic operation of one task: a load, a compare-exchange – which is the weak one and may fail for no
reason – or a subtraction.

What a task holds of each counter is read off its position, and each operation moves a counter by
exactly what the task's holding changes by (`Task.advance_spec`). So in every run the counters are
the sums of the holdings (`Accounted`), which is what keeps a subtraction from wrapping, and the
check before each compare-exchange keeps them within the caps.

A permit gives back its global slot first and its processor slot second, so between the two a
processor slot is charged that no live permit stands for.
-/

namespace EmeraldExchange.Transcoder.Limiter

/-! ### The counters and the tasks -/

/-- `Caps`: the two limits. -/
structure Caps where
  maxTotal : ℕ
  maxCpu : ℕ
  deriving DecidableEq

/-- `Counters`: the two atomics. -/
structure Counters where
  total : ℕ
  cpu : ℕ
  deriving DecidableEq

/-- `Busy`: which of the caps refused. -/
structure Busy where
  cpuCap : Bool
  deriving DecidableEq

/-- **Where a task stands**: each position is the one before an atomic operation. -/
inductive Task
  /-- A call for a processor transcode, before it loads the processor counter. -/
  | loadCpu
  /-- In the loop on the processor counter, with the value seen last. -/
  | reserveCpu (cur : ℕ)
  /-- Before the load of the global counter, a processor slot reserved if `isCpu`. -/
  | loadTotal (isCpu : Bool)
  /-- In the loop on the global counter, with the value seen last. -/
  | reserveTotal (isCpu : Bool) (cur : ℕ)
  /-- The global counter was full: before the reserved processor slot is given back. -/
  | rollBack
  /-- The call has returned a permit, which is live. -/
  | permit (isCpu : Bool)
  /-- The drop of a processor permit has given back the global slot only. -/
  | dropping
  /-- The call was refused. -/
  | busy (refusal : Busy)
  /-- The permit was dropped. -/
  | dropped
  deriving DecidableEq

/-- The largest value of a `usize`. -/
def usizeMax : ℕ := 18446744073709551615

/-- `fetch_sub(1)`, which wraps at zero. -/
def fetchSub (n : ℕ) : ℕ := if n = 0 then usizeMax else n - 1

/-- Where a call of `try_acquire` begins. -/
def Task.tryAcquire (isCpu : Bool) : Task := if isCpu then .loadCpu else .loadTotal false

/-- **One atomic operation of a task**, with the local work up to the next one. The check of
a cap is local: it looks at the value seen last and not at the counter. A weak
compare-exchange may fail though the value is the one expected (`spurious`). -/
def Task.advance (caps : Caps) (c : Counters) (spurious : Bool) : Task → Option (Counters × Task)
  | .loadCpu => some (c, .reserveCpu c.cpu)
  | .reserveCpu cur =>
    if caps.maxCpu ≤ cur then some (c, .busy ⟨true⟩)
    else if c.cpu = cur ∧ spurious = false then some ({ c with cpu := cur + 1 }, .loadTotal true)
    else some (c, .reserveCpu c.cpu)
  | .loadTotal isCpu => some (c, .reserveTotal isCpu c.total)
  | .reserveTotal isCpu cur =>
    if caps.maxTotal ≤ cur then some (c, if isCpu then .rollBack else .busy ⟨false⟩)
    else if c.total = cur ∧ spurious = false then
      some ({ c with total := cur + 1 }, .permit isCpu)
    else some (c, .reserveTotal isCpu c.total)
  | .rollBack => some ({ c with cpu := fetchSub c.cpu }, .busy ⟨false⟩)
  | .permit isCpu =>
    some ({ c with total := fetchSub c.total }, if isCpu then .dropping else .dropped)
  | .dropping => some ({ c with cpu := fetchSub c.cpu }, .dropped)
  | .busy _ => none
  | .dropped => none

/-- The shared counters and the tasks started so far. -/
structure State where
  counters : Counters
  tasks : List Task
  deriving DecidableEq

/-- `Limiter::new`. -/
def State.new : State := ⟨⟨0, 0⟩, []⟩

/-- What may happen next: a call begins, or a task does its next operation. -/
inductive Action
  | tryAcquire (isCpu : Bool)
  | advance (task : ℕ) (spurious : Bool)
  deriving DecidableEq

/-- **One step of the limiter**, whoever makes it. -/
def step (caps : Caps) (s : State) : Action → Option State
  | .tryAcquire isCpu => some { s with tasks := s.tasks ++ [.tryAcquire isCpu] }
  | .advance i spurious =>
    (s.tasks[i]?).bind fun t => (t.advance caps s.counters spurious).map fun r =>
      ⟨r.1, s.tasks.set i r.2⟩

/-! ### What a task holds -/

def Task.isPermit : Task → Bool
  | .permit _ => true
  | _ => false

/-- The permit is live and stands for a processor transcode. -/
def Task.isCpuPermit : Task → Bool
  | .permit isCpu => isCpu
  | _ => false

def Task.inFlight : Task → Bool
  | .loadCpu | .reserveCpu _ | .loadTotal _ | .reserveTotal _ _ | .rollBack => true
  | _ => false

def Task.isDropping : Task → Bool
  | .dropping => true
  | _ => false

/-- The call in flight has a processor slot reserved. -/
def Task.hasReserved : Task → Bool
  | .loadTotal isCpu => isCpu
  | .reserveTotal isCpu _ => isCpu
  | .rollBack => true
  | _ => false

/-- The task is charged to the global counter. -/
def Task.holdsTotal : Task → Bool := Task.isPermit

/-- The task is charged to the processor counter. -/
def Task.holdsCpu (t : Task) : Bool := t.isCpuPermit || t.hasReserved || t.isDropping

/-! ### What an operation does to the counters -/

section advance

variable {caps : Caps} {c c' : Counters} {t t' : Task} {spurious : Bool}

theorem fetchSub_add_one {n : ℕ} (h : 1 ≤ n) : fetchSub n + 1 = n := by
  rw [fetchSub, if_neg (by omega)]
  omega

/-- **What an operation of a task may do to the counters**: each moves by what the task's
holding changes by, and grows only up to its cap. -/
structure Charged (caps : Caps) (c c' : Counters) (t t' : Task) : Prop where
  total_eq : c'.total + t.holdsTotal.toNat = c.total + t'.holdsTotal.toNat
  cpu_eq : c'.cpu + t.holdsCpu.toNat = c.cpu + t'.holdsCpu.toNat
  total_le : c'.total ≤ max c.total caps.maxTotal
  cpu_le : c'.cpu ≤ max c.cpu caps.maxCpu

/-- An operation that leaves the counters alone is charged nothing, where the task goes on
holding what it held. -/
theorem Charged.same (htotal : t.holdsTotal = t'.holdsTotal) (hcpu : t.holdsCpu = t'.holdsCpu) :
    Charged caps c c t t' :=
  ⟨by rw [htotal], by rw [hcpu], le_max_left _ _, le_max_left _ _⟩

/-- **Every operation is charged to its task.** A counter that is charged for the task is
not zero, so no subtraction wraps; an exchange succeeds only on a value that was checked
against the cap. -/
theorem Task.charged_of_advance (h : t.advance caps c spurious = some (c', t'))
    (htotal : t.holdsTotal.toNat ≤ c.total) (hcpu : t.holdsCpu.toNat ≤ c.cpu) :
    Charged caps c c' t t' := by
  cases t with
  | loadCpu =>
    obtain ⟨rfl, rfl⟩ := Prod.mk.inj (Option.some.inj h)
    exact .same rfl rfl
  | reserveCpu cur =>
    simp only [advance] at h
    split at h
    · obtain ⟨rfl, rfl⟩ := Prod.mk.inj (Option.some.inj h)
      exact .same rfl rfl
    next hcap =>
    split at h
    · next hswap =>
      -- the exchange succeeded: the counter still has the value that was checked
      obtain ⟨rfl, rfl⟩ := Prod.mk.inj (Option.some.inj h)
      exact ⟨rfl, congrArg (· + 1) hswap.1.symm, le_max_left _ _,
        (Nat.succ_le_of_lt (not_le.mp hcap)).trans (le_max_right _ _)⟩
    · obtain ⟨rfl, rfl⟩ := Prod.mk.inj (Option.some.inj h)
      exact .same rfl rfl
  | loadTotal isCpu =>
    obtain ⟨rfl, rfl⟩ := Prod.mk.inj (Option.some.inj h)
    exact .same rfl rfl
  | reserveTotal isCpu cur =>
    simp only [advance] at h
    split at h
    · -- a reserved slot is kept until it is rolled back
      obtain ⟨rfl, rfl⟩ := Prod.mk.inj (Option.some.inj h)
      cases isCpu
      · exact .same rfl rfl
      · exact .same rfl rfl
    next hcap =>
    split at h
    · next hswap =>
      obtain ⟨rfl, rfl⟩ := Prod.mk.inj (Option.some.inj h)
      refine ⟨congrArg (· + 1) hswap.1.symm, ?_,
        (Nat.succ_le_of_lt (not_le.mp hcap)).trans (le_max_right _ _), le_max_left _ _⟩
      cases isCpu
      · rfl
      · rfl
    · obtain ⟨rfl, rfl⟩ := Prod.mk.inj (Option.some.inj h)
      exact .same rfl rfl
  | rollBack =>
    obtain ⟨rfl, rfl⟩ := Prod.mk.inj (Option.some.inj h)
    have hsub := fetchSub_add_one hcpu
    exact ⟨rfl, hsub, le_max_left _ _, le_max_of_le_left (by dsimp only; omega)⟩
  | permit isCpu =>
    obtain ⟨rfl, rfl⟩ := Prod.mk.inj (Option.some.inj h)
    have hsub := fetchSub_add_one htotal
    refine ⟨?_, ?_, le_max_of_le_left (by dsimp only; omega), le_max_left _ _⟩
    all_goals cases isCpu
    · exact hsub
    · exact hsub
    · rfl
    · rfl
  | dropping =>
    obtain ⟨rfl, rfl⟩ := Prod.mk.inj (Option.some.inj h)
    have hsub := fetchSub_add_one hcpu
    exact ⟨rfl, hsub, le_max_left _ _, le_max_of_le_left (by dsimp only; omega)⟩
  | busy refusal => cases h
  | dropped => cases h

end advance

/-! ### The counters are the sums of the holdings -/

section invariant

variable {caps : Caps} {s s' : State} {a : Action}

/-- **The invariant**: each counter is the number of tasks charged to it, and within its
cap. -/
structure Accounted (caps : Caps) (s : State) : Prop where
  total_eq : s.counters.total = s.tasks.countP Task.holdsTotal
  cpu_eq : s.counters.cpu = s.tasks.countP Task.holdsCpu
  total_le : s.counters.total ≤ caps.maxTotal
  cpu_le : s.counters.cpu ≤ caps.maxCpu

theorem accounted_new (caps : Caps) : Accounted caps .new :=
  ⟨rfl, rfl, Nat.zero_le _, Nat.zero_le _⟩

theorem toNat_le_countP {p : Task → Bool} {ts : List Task} {t : Task} (ht : t ∈ ts) :
    (p t).toNat ≤ ts.countP p := by
  by_cases hp : p t = true
  · rw [hp]
    exact List.countP_pos_iff.mpr ⟨t, ht, hp⟩
  · rw [Bool.not_eq_true] at hp
    rw [hp]
    exact Nat.zero_le _

theorem countP_set_add {p : Task → Bool} {ts : List Task} {i : ℕ} {t : Task} (t' : Task)
    (ht : ts[i]? = some t) :
    (ts.set i t').countP p + (p t).toNat = ts.countP p + (p t').toNat := by
  obtain ⟨hi, rfl⟩ := List.getElem?_eq_some_iff.mp ht
  have hle : (p ts[i]).toNat ≤ ts.countP p := toNat_le_countP (List.getElem_mem hi)
  rw [List.countP_set hi]
  cases hold : p ts[i] <;> cases hnew : p t' <;>
    simp only [hold, Bool.toNat_true, Bool.toNat_false, if_true, Bool.false_eq_true,
      if_false] at hle ⊢ <;> omega

/-- **A step keeps the account.** -/
theorem Accounted.step (h : Accounted caps s) (hstep : step caps s a = some s') :
    Accounted caps s' := by
  cases a with
  | tryAcquire isCpu =>
    obtain rfl := Option.some.inj hstep
    have hnew : ∀ p : Task → Bool, p (.tryAcquire isCpu) = false →
        (s.tasks ++ [Task.tryAcquire isCpu]).countP p = s.tasks.countP p := by
      rintro p hp
      simp [List.countP_append, hp]
    -- a call holds nothing when it begins
    refine ⟨h.total_eq.trans (hnew _ ?_).symm, h.cpu_eq.trans (hnew _ ?_).symm, h.total_le,
      h.cpu_le⟩
    all_goals cases isCpu <;> rfl
  | advance i spurious =>
    obtain ⟨t, ht, hmap⟩ := Option.bind_eq_some_iff.mp hstep
    obtain ⟨⟨c', t'⟩, hadvance, rfl⟩ := Option.map_eq_some_iff.mp hmap
    have hmem := List.mem_of_getElem? ht
    have hcharged := Task.charged_of_advance hadvance
      ((toNat_le_countP hmem).trans_eq h.total_eq.symm)
      ((toNat_le_countP hmem).trans_eq h.cpu_eq.symm)
    have htotal := countP_set_add (p := Task.holdsTotal) t' ht
    have hcpu := countP_set_add (p := Task.holdsCpu) t' ht
    have hcharge := hcharged.total_eq
    have hcharge' := hcharged.cpu_eq
    have hold := h.total_eq
    have hold' := h.cpu_eq
    refine ⟨?_, ?_, hcharged.total_le.trans (max_le h.total_le le_rfl),
      hcharged.cpu_le.trans (max_le h.cpu_le le_rfl)⟩
    · dsimp only
      omega
    · dsimp only
      omega

/-- **Every run keeps the account.** -/
theorem limiter_accounted (h : Runs (Limiter.step caps) anyStep .new s) : Accounted caps s :=
  h.invariant (accounted_new caps) fun _ _ _ hv _ hstep => hv.step hstep

/-! ### The counters and the live permits -/

theorem Task.ite_holdsCpu (t : Task) :
    (if t.holdsCpu = true then 1 else 0) = (if t.isCpuPermit = true then 1 else 0) +
      (if t.hasReserved = true then 1 else 0) + (if t.isDropping = true then 1 else 0) := by
  cases t with
  | loadTotal isCpu | reserveTotal isCpu _ | permit isCpu => cases isCpu <;> rfl
  | _ => rfl

/-- The processor counter counts, beside the live permits, the slots reserved by calls in
flight and those a drop has not given back yet. -/
theorem countP_holdsCpu (ts : List Task) :
    ts.countP Task.holdsCpu = ts.countP Task.isCpuPermit + ts.countP Task.hasReserved +
      ts.countP Task.isDropping := by
  induction ts with
  | nil => rfl
  | cons t ts ih =>
    simp only [List.countP_cons, ih, Task.ite_holdsCpu]
    omega

theorem Task.inFlight_of_hasReserved {t : Task} (h : t.hasReserved = true) :
    t.inFlight = true := by
  cases t <;> first | rfl | cases h

/-- **The limiter.** In every run, whatever the order of the operations of any number of
calls and drops: neither counter exceeds its cap; the global counter is the number of live
permits; and once no call is in flight and no drop is halfway, the processor counter is
the number of live processor permits. -/
theorem limiter_accounts (caps : Caps) (s : State)
    (h : Runs (Limiter.step caps) anyStep .new s) :
    s.counters.total ≤ caps.maxTotal ∧ s.counters.cpu ≤ caps.maxCpu ∧
      s.counters.total = s.tasks.countP Task.isPermit ∧
      ((∀ t ∈ s.tasks, t.inFlight = false ∧ t.isDropping = false) →
        s.counters.cpu = s.tasks.countP Task.isCpuPermit) := by
  have hacc := limiter_accounted h
  refine ⟨hacc.total_le, hacc.cpu_le, hacc.total_eq, fun hquiet => ?_⟩
  have hreserved : s.tasks.countP Task.hasReserved = 0 := by
    rw [List.countP_eq_zero]
    rintro t ht hres
    have hfly := Task.inFlight_of_hasReserved hres
    rw [(hquiet t ht).1] at hfly
    cases hfly
  have hdropping : s.tasks.countP Task.isDropping = 0 := by
    rw [List.countP_eq_zero]
    rintro t ht hdrop
    rw [(hquiet t ht).2] at hdrop
    cases hdrop
  rw [hacc.cpu_eq, countP_holdsCpu, hreserved, hdropping]
  rfl

/-- Two processor calls race for the one slot: the second loses the exchange, is refused,
and leaves nothing behind. -/
theorem limiter_accounts_race : ∃ s, Runs (Limiter.step ⟨4, 1⟩) anyStep .new s ∧
    s.tasks = [.permit true, .busy ⟨true⟩] ∧ s.counters.cpu = s.tasks.countP Task.isCpuPermit := by
  have hexec : ∃ s, exec (Limiter.step ⟨4, 1⟩) .new
      [.tryAcquire true, .tryAcquire true, .advance 0 false, .advance 1 false, .advance 0 false,
        .advance 1 false, .advance 1 false, .advance 0 false, .advance 0 false] = some s ∧
      s.tasks = [.permit true, .busy ⟨true⟩] := ⟨_, rfl, rfl⟩
  obtain ⟨s, hs, htasks⟩ := exists_runs_of_exec hexec
  refine ⟨s, hs, htasks, (limiter_accounts _ s hs).2.2.2 ?_⟩
  rw [htasks]
  decide

/-- **A drop is two operations.** After the first of them no call is in flight and no
permit is live, and the processor counter is still charged. -/
theorem cpu_charged_halfway : ∃ s, Runs (Limiter.step ⟨4, 1⟩) anyStep .new s ∧
    (∀ t ∈ s.tasks, t.inFlight = false) ∧ s.tasks.countP Task.isPermit = 0 ∧
      s.counters.total = 0 ∧ s.counters.cpu = 1 := by
  have hexec : ∃ s, exec (Limiter.step ⟨4, 1⟩) .new
      [.tryAcquire true, .advance 0 false, .advance 0 false, .advance 0 false, .advance 0 false,
        .advance 0 false] = some s ∧
      (∀ t ∈ s.tasks, t.inFlight = false) ∧ s.tasks.countP Task.isPermit = 0 ∧
        s.counters.total = 0 ∧ s.counters.cpu = 1 := ⟨_, rfl, by decide, rfl, rfl, rfl⟩
  exact exists_runs_of_exec hexec

end invariant

end EmeraldExchange.Transcoder.Limiter
