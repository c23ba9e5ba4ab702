import Mathlib.Data.List.Range
import Mathlib.Data.Nat.Notation
import Mathlib.Tactic.TypeStar

/-!
# Programs that draw numbers

A program that draws asks for a number up to a bound and goes on with what it gets. It is a tree
(`Drawing`), finite on each path: what it does for all numbers that it may get can
be told without saying where they come from (`Drawing.All`, with a rule for each way
to put programs together).

Numbers come from a source that uses up words of a stream. It may take as many words as it likes for
a number, so that some words are not enough for some programs; what holds of all numbers holds of
those it gives (`Drawing.All.run`), and where it always gives a number after some
words, so does the program (`Drawing.All.exists_run`).
-/

namespace EmeraldExchange

/-- **A program that draws**: it is at its end, has failed, or draws a number up to a bound. -/
inductive Drawing (ε α : Type*)
  | pure (a : α)
  | fail (e : ε)
  | draw (bound : ℕ) (next : ℕ → Drawing ε α)

namespace Drawing

variable {ε α β ω : Type*}

def bind : Drawing ε α → (α → Drawing ε β) → Drawing ε β
  | pure a, f => f a
  | fail e, _ => fail e
  | draw bound next, f => draw bound fun v => (next v).bind f

/-- **Run a program on some words**, of which the source takes what it needs for a number. -/
def run (source : ℕ → List ω → Except ε (ℕ × List ω)) :
    Drawing ε α → List ω → Except ε (α × List ω)
  | pure a, ws => .ok (a, ws)
  | fail e, _ => .error e
  | draw bound next, ws =>
    match source bound ws with
    | .ok (v, ws) => (next v).run source ws
    | .error e => .error e

/-! ### Whatever is drawn -/

/-- **Whatever is drawn**: the bounds that are asked for meet `B`, the program does not fail, and
its value meets `P`. -/
def All (B : ℕ → Prop) (P : α → Prop) : Drawing ε α → Prop
  | pure a => P a
  | fail _ => False
  | draw bound next => B bound ∧ ∀ v ≤ bound, (next v).All B P

variable {B : ℕ → Prop} {P : α → Prop} {Q : β → Prop} {p : Drawing ε α} {f : α → Drawing ε β}

theorem All.mono {P' : α → Prop} (hP : ∀ a, P a → P' a) :
    ∀ {p : Drawing ε α}, p.All B P → p.All B P'
  | pure a, h => hP a h
  | fail _, h => h
  | draw _ _, h => ⟨h.1, fun v hv => (h.2 v hv).mono hP⟩

theorem All.bind : ∀ {p : Drawing ε α}, p.All B P → (∀ a, P a → (f a).All B Q) →
    (p.bind f).All B Q
  | pure a, h, hf => hf a h
  | fail _, h, _ => h.elim
  | draw _ _, h, hf => ⟨h.1, fun v hv => (h.2 v hv).bind hf⟩

variable {source : ℕ → List ω → Except ε (ℕ × List ω)} {E : ε → Prop}

/-- **What holds whatever is drawn holds of each run** that does not end for lack of words, or
another reason of the source. -/
theorem All.run (hsource : ∀ bound, B bound → ∀ ws,
      (∃ e, source bound ws = .error e ∧ E e) ∨
        ∃ v ws', source bound ws = .ok (v, ws') ∧ v ≤ bound) :
    ∀ {p : Drawing ε α}, p.All B P → ∀ ws, (∃ e, p.run source ws = .error e ∧ E e) ∨
      ∃ a ws', p.run source ws = .ok (a, ws') ∧ P a
  | pure a, h, ws => .inr ⟨a, ws, rfl, h⟩
  | fail _, h, _ => h.elim
  | draw bound next, h, ws => by
    rw [Drawing.run]
    rcases hsource bound h.1 ws with ⟨e, he, hE⟩ | ⟨v, ws', hv, hle⟩
    · rw [he]
      exact .inl ⟨e, rfl, hE⟩
    · rw [hv]
      exact (h.2 v hle).run hsource ws'

/-! ### Streams of words -/

def wordsFrom (stream : ℕ → ω) (pos n : ℕ) : List ω := (List.range' pos n).map stream

theorem wordsFrom_succ (stream : ℕ → ω) (pos n : ℕ) :
    wordsFrom stream pos (n + 1) = stream pos :: wordsFrom stream (pos + 1) n := by
  rw [wordsFrom, List.range'_succ, List.map_cons]
  rfl

/-- The source gives a number after some words of the stream, from each position on, and leaves the
words after these. -/
def Flows (source : ℕ → List ω → Except ε (ℕ × List ω)) (stream : ℕ → ω) (bound : ℕ) : Prop :=
  ∀ pos, ∃ v m, v ≤ bound ∧ ∀ n, source bound (wordsFrom stream pos (m + n)) =
    .ok (v, wordsFrom stream (pos + m) n)

/-- **Where the source always gives a number, the program comes to its end.** -/
theorem All.exists_run {stream : ℕ → ω} (hflows : ∀ bound, B bound → Flows source stream bound) :
    ∀ {p : Drawing ε α}, p.All B P → ∀ pos, ∃ a m, P a ∧ ∀ n,
      p.run source (wordsFrom stream pos (m + n)) = .ok (a, wordsFrom stream (pos + m) n)
  | pure a, h, pos => ⟨a, 0, h, fun n => by rw [Nat.zero_add, Nat.add_zero]; rfl⟩
  | fail _, h, _ => h.elim
  | draw bound next, h, pos => by
    obtain ⟨v, m, hle, hv⟩ := hflows bound h.1 pos
    obtain ⟨a, m', ha, hrun⟩ := (h.2 v hle).exists_run hflows (pos + m)
    refine ⟨a, m + m', ha, fun n => ?_⟩
    rw [Nat.add_assoc, Drawing.run, hv, ← Nat.add_assoc pos]
    exact hrun n

end Drawing

end EmeraldExchange
