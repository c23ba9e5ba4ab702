import EmeraldExchange.Lib.Program

/-!
# Programs that send requests

Besides its store a program may have somebody to ask. What it sends is recorded here in the order
in which it is sent, whether or not the program comes to its end; what is answered is no concern of
the record. If the record is left away (`Asking.erase`), a program as before is
left, and so what is proved of the one holds of the other.

A program is silent if it sends nothing (`Asking.Silent`), and the judgement has the
postconditions of the weakest precondition, since what a later part sends depends on the state that
the earlier ones leave. That something is sent needs one part only that sends
(`Asking.sent_bind_left`, `Asking.sent_bind_right`).
-/

namespace EmeraldExchange

/-- **A program over the states `σ` that sends requests**, with a record of these. -/
def Asking (σ ω α : Type) : Type := σ → (Option α × σ) × List ω

namespace Asking

variable {σ ω α β : Type}

def erase (p : Asking σ ω α) : Program σ α := fun s => (p s).1

def sent (p : Asking σ ω α) (s : σ) : List ω := (p s).2

def lift (p : Program σ α) : Asking σ ω α := fun s => (p s, [])

def send (q : ω) : Asking σ ω Unit := fun s => ((some (), s), [q])

/-- What to do with the value of a program, if it comes to one. -/
protected def bind (p : Asking σ ω α) (f : α → Asking σ ω β) : Asking σ ω β := fun s =>
  match p s with
  | ((some a, t), r) => ((f a t).1, r ++ (f a t).2)
  | ((none, t), r) => ((none, t), r)

instance instMonad : Monad (Asking σ ω) where
  pure a := lift (pure a)
  bind := Asking.bind

variable {p : Asking σ ω α} {f : α → Asking σ ω β} {Q : α → σ → Prop} {R : β → σ → Prop}
  {E : σ → Prop} {s : σ}

/-! ### Without the record -/

@[simp] theorem erase_lift (q : Program σ α) : (lift q : Asking σ ω α).erase = q := rfl

@[simp] theorem erase_pure (a : α) : (pure a : Asking σ ω α).erase = pure a := rfl

@[simp] theorem erase_send (q : ω) : (send q : Asking σ ω Unit).erase = pure () := rfl

@[simp] theorem erase_bind : (p >>= f).erase = p.erase >>= fun a => (f a).erase := by
  funext s
  show (Asking.bind p f s).1 = Program.bind p.erase (fun a => (f a).erase) s
  rw [Asking.bind, Program.bind, erase]
  rcases p s with ⟨⟨_ | a, t⟩, r⟩ <;> rfl

@[simp] theorem erase_ite {c : Prop} [Decidable c] {q : Asking σ ω α} :
    (if c then p else q).erase = if c then p.erase else q.erase := by
  split <;> rfl

/-! ### What is sent -/

@[simp] theorem sent_lift (q : Program σ α) : (lift q : Asking σ ω α).sent s = [] := rfl

@[simp] theorem sent_send (q : ω) : (send q : Asking σ ω Unit).sent s = [q] := rfl

theorem sent_bind : (p >>= f).sent s =
    p.sent s ++ match p.erase s with
      | (some a, t) => (f a).sent t
      | (none, _) => [] := by
  show (Asking.bind p f s).2 = _
  rw [Asking.bind, sent, erase]
  rcases p s with ⟨⟨_ | a, t⟩, r⟩
  · exact (List.append_nil r).symm
  · rfl

theorem sent_bind_left (h : p.sent s ≠ []) : (p >>= f).sent s ≠ [] := by
  rw [sent_bind]
  exact List.append_ne_nil_of_left_ne_nil h _

theorem sent_bind_right (h : p.erase.Wp (fun a t => (f a).sent t ≠ []) (fun _ => False) s) :
    (p >>= f).sent s ≠ [] := by
  rw [sent_bind]
  rw [Program.Wp] at h
  rcases hp : p.erase s with ⟨_ | a, t⟩
  · rw [hp] at h
    exact h.elim
  · rw [hp] at h
    exact List.append_ne_nil_of_right_ne_nil _ h

/-! ### Silence -/

/-- **Nothing is sent**, with `Q` at the end of the program and `E` where a step fails. -/
def Silent (p : Asking σ ω α) (Q : α → σ → Prop) (E : σ → Prop) (s : σ) : Prop :=
  p.sent s = [] ∧ p.erase.Wp Q E s

theorem silent_lift {q : Program σ α} (h : q.Wp Q E s) : (lift q : Asking σ ω α).Silent Q E s :=
  ⟨rfl, h⟩

theorem silent_bind (h : p.Silent (fun a t => (f a).Silent R E t) E s) :
    (p >>= f).Silent R E s := by
  obtain ⟨hsent, hwp⟩ := h
  rw [Silent, sent_bind, hsent, erase_bind, Program.wp_bind]
  rw [Program.Wp] at hwp ⊢
  rcases hp : p.erase s with ⟨_ | a, t⟩
  · rw [hp] at hwp
    exact ⟨rfl, hwp⟩
  · rw [hp] at hwp
    exact hwp

end Asking

end EmeraldExchange
