import Mathlib.Tactic.TypeStar

/-!
# Programs that talk to a store

A program of this kind takes one step after another on a state – a store, a device, the world
outside – and each step may be the one that fails. Whatever was done before it stays done: a
program that fails leaves a state too, only no value.

The weakest precondition of a program (`Program.Wp`) has two postconditions: one
for the value and the state at the end of the program, one for the state that a failure leaves.
There is a rule for each way to put programs together.
-/

namespace EmeraldExchange

/-- **A program** over the states `σ`: it may give no value, and leaves a state in any case. -/
def Program (σ α : Type*) : Type _ := σ → Option α × σ

namespace Program

universe u

variable {σ : Type*} {α β : Type u}

/-- What to do with the value of a program, if it comes to one. -/
protected def bind (p : Program σ α) (f : α → Program σ β) : Program σ β := fun s =>
  match p s with
  | (some a, t) => f a t
  | (none, t) => (none, t)

instance : Monad (Program σ) where
  pure a := fun s => (some a, s)
  bind := Program.bind

def act (f : σ → α × σ) : Program σ α := fun s => (some (f s).1, (f s).2)

def attempt (f : σ → Option α × σ) : Program σ α := f

/-! ### Weakest preconditions -/

/-- **The weakest precondition**: `Q` at the end of the program, `E` where a step fails. -/
def Wp (p : Program σ α) (Q : α → σ → Prop) (E : σ → Prop) (s : σ) : Prop :=
  match p s with
  | (some a, t) => Q a t
  | (none, t) => E t

variable {p : Program σ α} {f : α → Program σ β} {Q Q' : α → σ → Prop} {R : β → σ → Prop}
  {E E' : σ → Prop} {s : σ}

@[simp] theorem wp_pure {a : α} : Wp (pure a : Program σ α) Q E s ↔ Q a s := Iff.rfl

@[simp] theorem wp_bind : Wp (p >>= f) R E s ↔ Wp p (fun a t => Wp (f a) R E t) E s := by
  show Wp (p.bind f) R E s ↔ _
  rw [Wp, Wp, Program.bind]
  rcases p s with ⟨_ | a, t⟩ <;> rfl

theorem wp_attempt {g : σ → Option α × σ} (hQ : ∀ a, (g s).1 = some a → Q a (g s).2)
    (hE : (g s).1 = none → E (g s).2) : Wp (attempt g) Q E s := by
  rw [Wp, attempt]
  rcases hg : g s with ⟨_ | a, t⟩
  · simpa [hg] using hE
  · simpa [hg] using hQ

@[simp] theorem wp_ite {c : Prop} [Decidable c] {q : Program σ α} :
    Wp (if c then p else q) Q E s ↔ if c then Wp p Q E s else Wp q Q E s := by
  by_cases h : c
  · rw [if_pos h, if_pos h]
  · rw [if_neg h, if_neg h]

theorem Wp.mono (h : Wp p Q E s) (hQ : ∀ a t, Q a t → Q' a t) (hE : ∀ t, E t → E' t) :
    Wp p Q' E' s := by
  rw [Wp] at h ⊢
  rcases hp : p s with ⟨_ | a, t⟩ <;> rw [hp] at h
  · exact hE t h
  · exact hQ a t h

end Program

end EmeraldExchange
