import Mathlib.Data.List.Basic

/-!
# Programs with a record of what they do

A program that may fail does some things before it does. What it has done at a moment is a front of
the record of all that it does, and so what holds at every moment is what holds of every front: of
two steps, either the first one is on its way, or it is done and the second one is
(`Traced.prefix_bind`).
-/

namespace EmeraldExchange

/-- **A program that records what it does** and may fail. -/
structure Traced (ε ω α : Type) where
  trace : List ω
  result : Except ε α

namespace Traced

variable {ε ω α β : Type} {x : Traced ε ω α} {f : α → Traced ε ω β} {t : List ω} {w : ω} {b : β}

def ofExcept (r : Except ε α) : Traced ε ω α := ⟨[], r⟩

def fail (e : ε) : Traced ε ω α := ofExcept (.error e)

def emit (w : ω) : Traced ε ω Unit := ⟨[w], .ok ()⟩

def bind (x : Traced ε ω α) (f : α → Traced ε ω β) : Traced ε ω β :=
  match x.result with
  | .error e => ⟨x.trace, .error e⟩
  | .ok a => ⟨x.trace ++ (f a).trace, (f a).result⟩

instance instMonad : Monad (Traced ε ω) where
  pure a := ofExcept (.ok a)
  bind := bind

@[simp] theorem trace_pure (a : α) : (pure a : Traced ε ω α).trace = [] := rfl

@[simp] theorem result_pure (a : α) : (pure a : Traced ε ω α).result = .ok a := rfl

@[simp] theorem trace_ofExcept (r : Except ε α) : (ofExcept r : Traced ε ω α).trace = [] := rfl

@[simp] theorem result_ofExcept (r : Except ε α) : (ofExcept r : Traced ε ω α).result = r := rfl

@[simp] theorem trace_fail (e : ε) : (fail e : Traced ε ω α).trace = [] := rfl

@[simp] theorem result_fail (e : ε) : (fail e : Traced ε ω α).result = .error e := rfl

@[simp] theorem trace_emit : (emit w : Traced ε ω Unit).trace = [w] := rfl

@[simp] theorem result_emit : (emit w : Traced ε ω Unit).result = .ok () := rfl

/-! ### One step after another -/

theorem bind_of_ok {a : α} (h : x.result = .ok a) :
    x >>= f = ⟨x.trace ++ (f a).trace, (f a).result⟩ := by
  show bind x f = _
  rw [bind, h]

theorem bind_of_error {e : ε} (h : x.result = .error e) : x >>= f = ⟨x.trace, .error e⟩ := by
  show bind x f = _
  rw [bind, h]

theorem result_bind_eq_ok :
    (x >>= f).result = .ok b ↔ ∃ a, x.result = .ok a ∧ (f a).result = .ok b := by
  cases h : x.result with
  | error e => simp [bind_of_error h]
  | ok a => simp [bind_of_ok h]

theorem mem_trace_bind :
    w ∈ (x >>= f).trace ↔ w ∈ x.trace ∨ ∃ a, x.result = .ok a ∧ w ∈ (f a).trace := by
  cases h : x.result with
  | error e => simp [bind_of_error h]
  | ok a => simp [bind_of_ok h]

/-- **At every moment the first step is on its way, or it is done and the second one is.** -/
theorem prefix_bind (h : t <+: (x >>= f).trace) :
    t <+: x.trace ∨ ∃ a u, x.result = .ok a ∧ u <+: (f a).trace ∧ t = x.trace ++ u := by
  cases hx : x.result with
  | error e =>
    rw [bind_of_error hx] at h
    exact .inl h
  | ok a =>
    rw [bind_of_ok hx] at h
    rcases List.prefix_or_prefix_of_prefix h (List.prefix_append x.trace (f a).trace) with h' | h'
    · exact .inl h'
    · obtain ⟨u, rfl⟩ := h'
      exact .inr ⟨a, u, rfl, (List.prefix_append_right_inj _).mp h, rfl⟩

theorem prefix_of_bind_pure {g : α → β} (h : t <+: (x >>= fun a => pure (g a)).trace) :
    t <+: x.trace := by
  rcases prefix_bind h with h | ⟨a, u, -, hu, rfl⟩
  · exact h
  · obtain rfl := List.prefix_nil.mp hu
    exact (List.append_nil _).symm ▸ List.prefix_refl _

theorem result_bind_eq_error {e : ε} : (x >>= f).result = .error e ↔
    x.result = .error e ∨ ∃ a, x.result = .ok a ∧ (f a).result = .error e := by
  cases h : x.result with
  | error e' => simp [bind_of_error h]
  | ok a => simp [bind_of_ok h]

end Traced

end EmeraldExchange
