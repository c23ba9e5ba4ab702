import Mathlib.Logic.Relation
import Mathlib.Data.Nat.Notation

/-!
# Runs of a step function, and the invariants that survive them

A system is a *partial step function* `step : σ → α → Option σ`: from a state, an action either
happens and gives the next state, or is not possible there. The interleavings of several parties are
the action sequences, each action naming the party that moves.

* `exec` follows a given list of actions, and can be evaluated.
* `Runs` is reachability by steps that all meet a *guard* on the state they leave and the action
  they take. The guard `anyStep` lets every step through.

The rule that carries every result about runs is `Runs.invariant`: what holds at the start and is
preserved by each guarded step holds at the end.
-/

namespace EmeraldExchange

variable {σ α : Type*}

/-- Follow a list of actions, stopping at the first one that is not possible. -/
def exec (step : σ → α → Option σ) : σ → List α → Option σ
  | s, [] => some s
  | s, a :: as => (step s a).bind fun t => exec step t as

@[simp] theorem exec_nil (step : σ → α → Option σ) (s : σ) : exec step s [] = some s := rfl

theorem exec_cons (step : σ → α → Option σ) (s : σ) (a : α) (as : List α) :
    exec step s (a :: as) = (step s a).bind fun t => exec step t as := rfl

def anyStep : σ → α → Prop := fun _ _ => True

/-- **One guarded step**: some action that meets the guard leads from `s` to `t`. -/
def StepVia (step : σ → α → Option σ) (guard : σ → α → Prop) (s t : σ) : Prop :=
  ∃ a, guard s a ∧ step s a = some t

/-- **A guarded run**: any number of steps, each meeting the guard. -/
abbrev Runs (step : σ → α → Option σ) (guard : σ → α → Prop) : σ → σ → Prop :=
  Relation.ReflTransGen (StepVia step guard)

variable {step : σ → α → Option σ} {guard guard' : σ → α → Prop} {s t u : σ}

/-- **The invariant rule.** A property of the start that each guarded step
preserves is a property of every state a guarded run reaches. -/
theorem Runs.invariant {P : σ → Prop} (h : Runs step guard s t) (h₀ : P s)
    (hstep : ∀ v a w, P v → guard v a → step v a = some w → P w) : P t := by
  induction h with
  | refl => exact h₀
  | tail _ hlast ih =>
    obtain ⟨a, hg, ha⟩ := hlast
    exact hstep _ a _ ih hg ha

theorem Runs.mono (hguard : ∀ v a, guard v a → guard' v a) (h : Runs step guard s t) :
    Runs step guard' s t := by
  have hle : StepVia step guard ≤ StepVia step guard' :=
    fun v _ ⟨a, hg, ha⟩ => ⟨a, hguard v a hg, ha⟩
  exact Relation.ReflTransGen.mono hle _ _ h

theorem Runs.forget (h : Runs step guard s t) : Runs step anyStep s t :=
  h.mono fun _ _ _ => trivial

/-- **Following a list is a run**, guarded by whatever its actions meet in every state. -/
theorem runs_of_exec_of_guard : ∀ {as : List α} {s : σ}, (∀ a ∈ as, ∀ v, guard v a) →
    exec step s as = some t → Runs step guard s t
  | [], s, _, h => by
    obtain rfl : s = t := by simpa using h
    exact Relation.ReflTransGen.refl
  | a :: as, s, hguard, h => by
    rw [exec_cons] at h
    obtain ⟨v, hv, hrest⟩ := Option.bind_eq_some_iff.mp h
    exact Relation.ReflTransGen.head ⟨a, hguard a List.mem_cons_self s, hv⟩
      (runs_of_exec_of_guard (fun b hb => hguard b (List.mem_cons_of_mem _ hb)) hrest)

/-- The step function that stops where the guard is not met. -/
def guarded (step : σ → α → Option σ) (guard : σ → α → Prop) [∀ s a, Decidable (guard s a)]
    (s : σ) (a : α) : Option σ :=
  if guard s a then step s a else none

/-- **Following a list with the guard checked on the way is a guarded run.** -/
theorem runs_of_exec_guarded [∀ s a, Decidable (guard s a)] : ∀ {as : List α} {s : σ},
    exec (guarded step guard) s as = some t → Runs step guard s t
  | [], s, h => by
    obtain rfl : s = t := by simpa using h
    exact Relation.ReflTransGen.refl
  | a :: as, s, h => by
    rw [exec_cons] at h
    obtain ⟨v, hv, hrest⟩ := Option.bind_eq_some_iff.mp h
    obtain ⟨hguard, hstep⟩ := Option.ite_none_right_eq_some.mp hv
    exact Relation.ReflTransGen.head ⟨a, hguard, hstep⟩ (runs_of_exec_guarded hrest)

/-- **The loop rule.** A list is followed to its end if, at each of its actions, what holds after
those before makes the action possible and holds again after it. -/
theorem exists_exec (P : List α → σ → Prop) {as : List α} (h₀ : P [] s)
    (hstep : ∀ done a rest v, as = done ++ a :: rest → P done v →
      ∃ w, step v a = some w ∧ P (done ++ [a]) w) :
    ∃ t, exec step s as = some t ∧ P as t := by
  have hrest : ∀ rest done v, as = done ++ rest → P done v →
      ∃ t, exec step v rest = some t ∧ P as t := by
    intro rest
    induction rest with
    | nil =>
      intro done v has hv
      rw [List.append_nil] at has
      exact ⟨v, rfl, has ▸ hv⟩
    | cons a rest ih =>
      intro done v has hv
      obtain ⟨w, hw, hP⟩ := hstep done a rest v has hv
      obtain ⟨t, ht, hend⟩ := ih (done ++ [a]) w (by simpa using has) hP
      exact ⟨t, by rw [exec_cons, hw, Option.bind_some, ht], hend⟩
  exact hrest as [] s rfl h₀

theorem runs_of_exec {as : List α} (h : exec step s as = some t) : Runs step anyStep s t :=
  runs_of_exec_of_guard (fun _ _ _ => trivial) h

theorem exists_runs_of_exec {P : σ → Prop} {as : List α}
    (h : ∃ t, exec step s as = some t ∧ P t) : ∃ t, Runs step anyStep s t ∧ P t := by
  obtain ⟨t, ht, hP⟩ := h
  exact ⟨t, runs_of_exec ht, hP⟩

/-- The guard is met in every state that following a list goes through. -/
def Along (step : σ → α → Option σ) (guard : σ → α → Prop) : σ → List α → Prop
  | _, [] => True
  | s, a :: as => guard s a ∧ ∀ t ∈ step s a, Along step guard t as

/-! ### Counting steps -/

/-- How many of the actions pass a test in the state they are taken in. -/
def tally (step : σ → α → Option σ) (p : σ → α → Bool) : σ → List α → ℕ
  | _, [] => 0
  | s, a :: as => (if p s a then 1 else 0) + ((step s a).map fun t => tally step p t as).getD 0

end EmeraldExchange
