import Mathlib.Data.List.Infix

/-!
# Regular expressions by backtracking

Regular expressions as a list of *ways to match*, in the order in which a backtracking matcher would
try them: of two alternatives the left one first, of a repetition the longest first. The first way
is the match that Perl finds; the others are what a search falls back to when what follows does not
match. Repetitions are of one class of characters, which keeps the definition structural.

A place in a text has the character before it, which is what a word boundary and the start of
the text look at, and the groups closed on the way there.

What is done with the matches of a text – replacing the first, replacing all, listing them – goes
from left to right. An empty match is not one of them: no expression that is replaced or listed
here has one.
-/

namespace EmeraldExchange

variable {α : Type*}

/-- **A regular expression** over the characters `α`. -/
inductive Regex (α : Type*)
  /-- Nothing. -/
  | eps
  /-- One character of a class. -/
  | one (p : α → Bool)
  /-- Any number of characters of a class, as many as possible. -/
  | many (p : α → Bool)
  /-- The one, then the other. -/
  | cat (r s : Regex α)
  /-- The one, or else the other. -/
  | alt (r s : Regex α)
  /-- A group with its number. -/
  | group (n : ℕ) (r : Regex α)
  /-- A boundary of words. -/
  | boundary (word : α → Bool)
  /-- The start of the text. -/
  | start
  /-- The end of the text. -/
  | stop

namespace Regex

@[ext] structure Pos (α : Type*) where
  prev : Option α
  rest : List α
  groups : List (ℕ × List α)

/-- The ways to take characters of a class, the most of them first. -/
def runMany (p : α → Bool) (groups : List (ℕ × List α)) : Option α → List α → List (Pos α)
  | prev, [] => [⟨prev, [], groups⟩]
  | prev, c :: s =>
    (if p c then runMany p groups (some c) s else []) ++ [⟨prev, c :: s, groups⟩]

/-- What was passed from one text on to another that it ends with. -/
def passed (text rest : List α) : List α := text.take (text.length - rest.length)

/-- **The ways to match** from a place, in order of preference, each with the place it leads
to. -/
def run : Regex α → Pos α → List (Pos α)
  | .eps, q => [q]
  | .one p, q =>
    match q.rest with
    | [] => []
    | c :: s => if p c then [⟨some c, s, q.groups⟩] else []
  | .many p, q => runMany p q.groups q.prev q.rest
  | .cat r s, q => (run r q).flatMap (run s)
  | .alt r s, q => run r q ++ run s q
  | .group n r, q => (run r q).map fun q' =>
      { q' with groups := q'.groups ++ [(n, passed q.rest q'.rest)] }
  | .boundary word, q => if q.prev.any word != q.rest.head?.any word then [q] else []
  | .start, q => if q.prev.isNone then [q] else []
  | .stop, q => if q.rest.isEmpty then [q] else []

/-! ### Writing expressions -/

def opt (r : Regex α) : Regex α := .alt r .eps

def some1 (p : α → Bool) : Regex α := .cat (.one p) (.many p)

def atLeast (p : α → Bool) : ℕ → Regex α
  | 0 => .many p
  | n + 1 => .cat (.one p) (atLeast p n)

def seq : List (Regex α) → Regex α
  | [] => .eps
  | r :: rs => .cat r (seq rs)

def oneOf : List (Regex α) → Regex α
  | [] => .one fun _ => false
  | [r] => r
  | r :: rs => .alt r (oneOf rs)

/-- At most some number of times, rather more. -/
def upTo (p : α → Bool) : ℕ → Regex α
  | 0 => .eps
  | n + 1 => opt (.cat (.one p) (upTo p n))

/-- A word whose characters are compared after `fold`; those of `w` are folded. -/
def wordBy [DecidableEq α] (fold : α → α) (w : List α) : Regex α :=
  seq (w.map fun c => .one fun d => fold d = c)

def literal [DecidableEq α] (w : List α) : Regex α := wordBy id w

/-! ### Matches in a text -/

/-- The match at a place, which is the first way. -/
def matchAt (r : Regex α) (prev : Option α) (s : List α) : Option (Pos α) :=
  (run r ⟨prev, s, []⟩).head?

def Pos.group (q : Pos α) (n : ℕ) : Option (List α) :=
  (q.groups.find? fun g => g.1 = n).map Prod.snd

/-- **The leftmost match**, with what stands before it and the text it is found in. -/
def find (r : Regex α) : Option α → List α → Option (List α × List α × Pos α)
  | prev, [] => (matchAt r prev []).map fun q => ([], [], q)
  | prev, c :: s =>
    match matchAt r prev (c :: s) with
    | some q => some ([], c :: s, q)
    | none => (find r (some c) s).map fun m => (c :: m.1, m.2)

/-- `is_match` -/
def isMatch (r : Regex α) (s : List α) : Bool := (find r none s).isSome

/-- `replace` with a fixed text: the first match only. -/
def replaceFirst (r : Regex α) (by' : List α) (s : List α) : List α :=
  match find r none s with
  | some (before, _, q) => before ++ by' ++ q.rest
  | none => s

/-- The matches of a text that are not empty, none overlapping another: after a match, as many
characters are passed over as it has. -/
def spansFrom (r : Regex α) : ℕ → Option α → List α → List (List α)
  | _, _, [] => []
  | skip + 1, _, c :: s => spansFrom r skip (some c) s
  | 0, prev, c :: s =>
    match matchAt r prev (c :: s) with
    | some q =>
      match (c :: s).length - q.rest.length with
      | 0 => spansFrom r 0 (some c) s
      | n + 1 => passed (c :: s) q.rest :: spansFrom r n (some c) s
    | none => spansFrom r 0 (some c) s

/-- `find_iter` -/
def findAll (r : Regex α) (s : List α) : List (List α) := spansFrom r 0 none s

/-- **`replace_all`**, from a place on, where some characters are still to be passed over. What a
match is replaced by may depend on its text and its groups. -/
def replaceFrom (r : Regex α) (by' : List α → Pos α → List α) :
    ℕ → Option α → List α → List α
  | _, _, [] => []
  | skip + 1, _, c :: s => replaceFrom r by' skip (some c) s
  | 0, prev, c :: s =>
    match matchAt r prev (c :: s) with
    | some q =>
      match (c :: s).length - q.rest.length with
      | 0 => c :: replaceFrom r by' 0 (some c) s
      | n + 1 => by' (passed (c :: s) q.rest) q ++ replaceFrom r by' n (some c) s
    | none => c :: replaceFrom r by' 0 (some c) s

/-- `replace_all` -/
def replaceAll (r : Regex α) (by' : List α → Pos α → List α) (s : List α) : List α :=
  replaceFrom r by' 0 none s

/-! ### What the ways to match are -/

section ways

variable {p : α → Bool} {groups : List (ℕ × List α)} {prev : Option α} {s : List α}
  {q q' : Pos α} {r r' : Regex α}

/-- The character before a text that follows `a`. -/
def lastOr (prev : Option α) (a : List α) : Option α := a.getLast?.or prev

theorem find_nil (r : Regex α) (prev : Option α) :
    find r prev [] = (matchAt r prev []).map fun q => ([], [], q) := rfl

theorem find_cons (r : Regex α) (prev : Option α) (c : α) (s : List α) :
    find r prev (c :: s) =
      match matchAt r prev (c :: s) with
      | some q => some ([], c :: s, q)
      | none => (find r (some c) s).map fun m => (c :: m.1, m.2) := rfl

@[simp] theorem lastOr_nil (prev : Option α) : lastOr prev [] = prev := rfl

@[simp] theorem lastOr_cons (prev : Option α) (c : α) (a : List α) :
    lastOr prev (c :: a) = lastOr (some c) a := by
  cases a with
  | nil => rfl
  | cons d a =>
    rw [lastOr, lastOr, List.getLast?_cons_cons]
    cases h : (d :: a).getLast? with
    | none => simp at h
    | some e => rfl

theorem lastOr_append (prev : Option α) (a b : List α) :
    lastOr prev (a ++ b) = lastOr (lastOr prev a) b := by
  induction a generalizing prev with
  | nil => rfl
  | cons c a ih => rw [List.cons_append, lastOr_cons, lastOr_cons, ih]

theorem runMany_cons (c : α) : runMany p groups prev (c :: s) =
    (if p c then runMany p groups (some c) s else []) ++ [⟨prev, c :: s, groups⟩] := rfl

/-- **A repetition takes characters of its class**, as many as it likes. -/
theorem mem_runMany : q ∈ runMany p groups prev s ↔
    ∃ a, (∀ c ∈ a, p c = true) ∧ s = a ++ q.rest ∧ q.prev = lastOr prev a ∧ q.groups = groups := by
  induction s generalizing prev with
  | nil =>
    refine List.mem_singleton.trans ?_
    constructor
    · rintro rfl
      exact ⟨[], by simp, rfl, rfl, rfl⟩
    · rintro ⟨a, -, hnil, hprev, hgroups⟩
      obtain ⟨rfl, hrest⟩ := List.append_eq_nil_iff.mp hnil.symm
      exact Pos.ext hprev hrest hgroups
  | cons c s ih =>
    rw [runMany_cons, List.mem_append, List.mem_singleton]
    constructor
    · rintro (hq | rfl)
      · split at hq
        · next hc =>
          obtain ⟨a, ha, hs, hprev, hgroups⟩ := ih.mp hq
          refine ⟨c :: a, ?_, by rw [List.cons_append, ← hs], by rw [lastOr_cons, hprev], hgroups⟩
          rintro d hd
          rcases List.mem_cons.mp hd with rfl | hd
          · exact hc
          · exact ha d hd
        · cases hq
      · exact ⟨[], by simp, rfl, rfl, rfl⟩
    · rintro ⟨a, ha, hs, hprev, hgroups⟩
      cases a with
      | nil => exact .inr (Pos.ext hprev hs.symm hgroups)
      | cons d a =>
        obtain ⟨rfl, hs'⟩ := List.cons.inj hs
        refine .inl ?_
        rw [if_pos (ha c List.mem_cons_self)]
        exact ih.mpr ⟨a, fun e he => ha e (List.mem_cons_of_mem _ he), hs',
          by rw [hprev, lastOr_cons], hgroups⟩

/-- **The first way of a repetition takes all it can.** -/
theorem head?_runMany (p : α → Bool) (groups : List (ℕ × List α)) (prev : Option α)
    (s : List α) : ∃ prev', (runMany p groups prev s).head? =
      some ⟨prev', s.dropWhile p, groups⟩ := by
  induction s generalizing prev with
  | nil => exact ⟨prev, rfl⟩
  | cons c s ih =>
    rw [runMany_cons]
    by_cases hc : p c = true
    · obtain ⟨prev', hhead⟩ := ih (some c)
      refine ⟨prev', ?_⟩
      rw [if_pos hc, List.head?_append, hhead, List.dropWhile_cons_of_pos hc]
      rfl
    · refine ⟨prev, ?_⟩
      rw [if_neg hc, List.dropWhile_cons_of_neg hc]
      rfl

theorem exists_of_head?_flatMap {β γ : Type*} {l : List β} {f : β → List γ} {x : γ}
    (h : (l.flatMap f).head? = some x) : ∃ y ∈ l, (f y).head? = some x := by
  induction l with
  | nil => cases h
  | cons y ys ih =>
    rw [List.flatMap_cons, List.head?_append] at h
    rcases Option.or_eq_some_iff.mp h with h | ⟨-, h⟩
    · exact ⟨y, List.mem_cons_self, h⟩
    · obtain ⟨z, hz, hx⟩ := ih h
      exact ⟨z, List.mem_cons_of_mem _ hz, hx⟩

theorem exists_of_head?_cat (h : (run (.cat r r') q).head? = some q') :
    ∃ p ∈ run r q, (run r' p).head? = some q' := exists_of_head?_flatMap h

theorem mem_run_cat : q' ∈ run (.cat r r') q ↔ ∃ p ∈ run r q, q' ∈ run r' p := List.mem_flatMap

theorem run_one_nil {p : α → Bool} (h : q.rest = []) : run (.one p) q = [] := by
  rcases q with ⟨prev, _ | ⟨c, s⟩, groups⟩
  · rfl
  · cases h

theorem run_one_cons {p : α → Bool} {c : α} (h : q.rest = c :: s) :
    run (.one p) q = if p c then [⟨some c, s, q.groups⟩] else [] := by
  rcases q with ⟨prev, rest, groups⟩
  subst h
  rfl

theorem mem_run_one {p : α → Bool} : q' ∈ run (.one p) q ↔
    ∃ c s, q.rest = c :: s ∧ p c = true ∧ q' = ⟨some c, s, q.groups⟩ := by
  rcases h : q.rest with _ | ⟨c, s⟩
  · rw [run_one_nil h]
    refine iff_of_false List.not_mem_nil ?_
    rintro ⟨c, s, heq, -⟩
    exact List.cons_ne_nil _ _ heq.symm
  · rw [run_one_cons h]
    by_cases hp : p c = true
    · rw [if_pos hp, List.mem_singleton]
      constructor
      · rintro rfl
        exact ⟨c, s, rfl, hp, rfl⟩
      · rintro ⟨c', s', heq, -, rfl⟩
        obtain ⟨rfl, rfl⟩ := List.cons.inj heq
        rfl
    · rw [if_neg hp]
      constructor
      · exact fun hq => absurd hq List.not_mem_nil
      · rintro ⟨c', s', heq, hp', -⟩
        obtain ⟨rfl, rfl⟩ := List.cons.inj heq
        exact absurd hp' hp

theorem mem_run_opt : q' ∈ run (opt r) q ↔ q' ∈ run r q ∨ q' = q := by
  exact List.mem_append.trans (or_congr_right List.mem_singleton)

theorem mem_run_boundary {word : α → Bool} : q' ∈ run (.boundary word) q ↔
    q' = q ∧ q.prev.any word ≠ q.rest.head?.any word := by
  show q' ∈ (if q.prev.any word != q.rest.head?.any word then [q] else []) ↔ _
  by_cases h : q.prev.any word = q.rest.head?.any word
  · simp [h]
  · simp [h]

theorem mem_run_group {n : ℕ} : q' ∈ run (.group n r) q ↔ ∃ p ∈ run r q,
    { p with groups := p.groups ++ [(n, passed q.rest p.rest)] } = q' := List.mem_map

/-- **A repetition of at least `n`** takes `n` characters of its class or more. -/
theorem mem_run_atLeast {n : ℕ} : q' ∈ run (atLeast p n) q ↔
    ∃ a, n ≤ a.length ∧ (∀ c ∈ a, p c = true) ∧ q.rest = a ++ q'.rest ∧
      q'.prev = lastOr q.prev a ∧ q'.groups = q.groups := by
  induction n generalizing q with
  | zero =>
    show q' ∈ runMany p q.groups q.prev q.rest ↔ _
    rw [mem_runMany]
    constructor
    · rintro ⟨a, ha⟩
      exact ⟨a, Nat.zero_le _, ha⟩
    · rintro ⟨a, -, ha⟩
      exact ⟨a, ha⟩
  | succ n ih =>
    rw [atLeast, mem_run_cat]
    constructor
    · rintro ⟨p', hp', hq'⟩
      obtain ⟨c, s, hrest, hc, rfl⟩ := mem_run_one.mp hp'
      obtain ⟨a, hlen, ha, hs, hprev, hgroups⟩ := ih.mp hq'
      refine ⟨c :: a, Nat.succ_le_succ hlen, ?_, ?_, ?_, hgroups⟩
      · rintro d hd
        rcases List.mem_cons.mp hd with rfl | hd
        · exact hc
        · exact ha d hd
      · rw [hrest, List.cons_append, ← hs]
      · rw [hprev, lastOr_cons]
    · rintro ⟨a, hlen, ha, hrest, hprev, hgroups⟩
      cases a with
      | nil => exact absurd hlen (Nat.not_succ_le_zero n)
      | cons c a =>
        refine ⟨⟨some c, a ++ q'.rest, q.groups⟩,
          mem_run_one.mpr ⟨c, _, hrest, ha c List.mem_cons_self, rfl⟩,
          ih.mpr ⟨a, Nat.le_of_succ_le_succ hlen, fun d hd => ha d (List.mem_cons_of_mem _ hd),
            rfl, ?_, hgroups⟩⟩
        rw [hprev, lastOr_cons]

theorem head?_run_some1 (h : (run (some1 p) q).head? = some q') :
    ∃ c s, q.rest = c :: s ∧ p c = true ∧ q'.rest = s.dropWhile p ∧ q'.groups = q.groups := by
  obtain ⟨p', hp', hq'⟩ := exists_of_head?_cat h
  obtain ⟨c, s, hrest, hc, rfl⟩ := mem_run_one.mp hp'
  obtain ⟨prev', hhead⟩ := head?_runMany p q.groups (some c) s
  obtain rfl := Option.some.inj (hhead.symm.trans hq')
  exact ⟨c, s, hrest, hc, rfl, rfl⟩

theorem run_some1_ne_nil {c : α} (hrest : q.rest = c :: s) (hc : p c = true) :
    ∃ q', q' ∈ run (some1 p) q := by
  obtain ⟨prev', hhead⟩ := head?_runMany p q.groups (some c) s
  exact ⟨_, mem_run_cat.mpr ⟨_, mem_run_one.mpr ⟨c, s, hrest, hc, rfl⟩, List.mem_of_head? hhead⟩⟩

theorem matchAt_ne_none (h : q' ∈ run r ⟨prev, s, []⟩) : matchAt r prev s ≠ none := by
  rw [matchAt, Ne, List.head?_eq_none_iff]
  exact List.ne_nil_of_mem h

/-- **A word matches what folds to it.** -/
theorem mem_run_wordBy [DecidableEq α] {fold : α → α} {w : List α} :
    q' ∈ run (wordBy fold w) q ↔
      ∃ a, a.map fold = w ∧ q.rest = a ++ q'.rest ∧ q'.prev = lastOr q.prev a ∧
        q'.groups = q.groups := by
  induction w generalizing q with
  | nil =>
    show q' ∈ [q] ↔ _
    rw [List.mem_singleton]
    constructor
    · rintro rfl
      exact ⟨[], rfl, rfl, rfl, rfl⟩
    · rintro ⟨a, ha, hrest, hprev, hgroups⟩
      obtain rfl := List.map_eq_nil_iff.mp ha
      exact Pos.ext hprev hrest.symm hgroups
  | cons c w ih =>
    show q' ∈ run (.cat (.one _) (wordBy fold w)) q ↔ _
    rw [mem_run_cat]
    constructor
    · rintro ⟨p, hp, hq'⟩
      obtain ⟨d, s, hrest, hd, rfl⟩ := mem_run_one.mp hp
      obtain ⟨a, ha, hs, hprev, hgroups⟩ := ih.mp hq'
      refine ⟨d :: a, by rw [List.map_cons, ha, of_decide_eq_true hd], ?_, ?_, hgroups⟩
      · rw [hrest, List.cons_append, ← hs]
      · rw [hprev, lastOr_cons]
    · rintro ⟨a, ha, hrest, hprev, hgroups⟩
      cases a with
      | nil => cases ha
      | cons d a =>
        obtain ⟨hd, ha⟩ := List.cons.inj ha
        refine ⟨⟨some d, a ++ q'.rest, q.groups⟩,
          mem_run_one.mpr ⟨d, _, hrest, decide_eq_true hd, rfl⟩, ih.mpr ⟨a, ha, rfl, ?_, hgroups⟩⟩
        rw [hprev, lastOr_cons]

theorem mem_run_literal [DecidableEq α] {w : List α} : q' ∈ run (literal w) q ↔
    q.rest = w ++ q'.rest ∧ q'.prev = lastOr q.prev w ∧ q'.groups = q.groups := by
  rw [literal, mem_run_wordBy]
  constructor
  · rintro ⟨a, ha, hrest⟩
    rw [List.map_id] at ha
    exact ha ▸ hrest
  · exact fun h => ⟨w, List.map_id w, h⟩

/-- **A way to match leads on in the text.** -/
theorem suffix_of_mem_run (h : q' ∈ run r q) : q'.rest <:+ q.rest := by
  induction r generalizing q q' with
  | eps =>
    obtain rfl := List.mem_singleton.mp h
    exact List.suffix_refl _
  | one p =>
    obtain ⟨c, s, hrest, -, rfl⟩ := mem_run_one.mp h
    exact hrest ▸ List.suffix_cons c s
  | many p =>
    obtain ⟨a, -, hs, -⟩ := mem_runMany.mp h
    exact ⟨a, hs.symm⟩
  | cat r r' ih ih' =>
    obtain ⟨p, hp, hq'⟩ := mem_run_cat.mp h
    exact (ih' hq').trans (ih hp)
  | alt r r' ih ih' =>
    rcases List.mem_append.mp h with h | h
    · exact ih h
    · exact ih' h
  | group n r ih =>
    obtain ⟨p, hp, rfl⟩ := List.mem_map.mp h
    have hsuffix := ih hp
    exact hsuffix
  | boundary word | start | stop =>
    simp only [run] at h
    split at h
    · obtain rfl := List.mem_singleton.mp h
      exact List.suffix_refl _
    · cases h

end ways

/-! ### Every place of a text -/

section places

variable {P Q : Option α → List α → Prop} {prev : Option α} {s : List α}

/-- **A property of all places of a text**, each with the character before it. -/
def AllAt (P : Option α → List α → Prop) : Option α → List α → Prop
  | prev, [] => P prev []
  | prev, c :: s => P prev (c :: s) ∧ AllAt P (some c) s

theorem allAt_iff : AllAt P prev s ↔ ∀ a b, s = a ++ b → P (lastOr prev a) b := by
  induction s generalizing prev with
  | nil =>
    constructor
    · rintro h a b hab
      obtain ⟨rfl, rfl⟩ := List.append_eq_nil_iff.mp hab.symm
      exact h
    · exact fun h => h [] [] rfl
  | cons c s ih =>
    rw [AllAt, ih]
    constructor
    · rintro ⟨hhead, htail⟩ a b hab
      cases a with
      | nil =>
        obtain rfl : c :: s = b := hab
        exact hhead
      | cons d a =>
        obtain ⟨rfl, hab'⟩ := List.cons.inj hab
        rw [lastOr_cons]
        exact htail a b hab'
    · rintro h
      refine ⟨h [] _ rfl, fun a b hab => ?_⟩
      rw [← lastOr_cons prev]
      exact h (c :: a) b (by rw [hab, List.cons_append])

theorem AllAt.head (h : AllAt P prev s) : P prev s := allAt_iff.mp h [] s rfl

theorem AllAt.drop {a : List α} (h : AllAt P prev (a ++ s)) : AllAt P (lastOr prev a) s := by
  rw [allAt_iff] at h ⊢
  rintro b c rfl
  rw [← lastOr_append]
  exact h (a ++ b) c (List.append_assoc ..).symm

theorem AllAt.imp (h : ∀ prev s, P prev s → Q prev s) (hs : AllAt P prev s) :
    AllAt Q prev s := by
  rw [allAt_iff] at hs ⊢
  exact fun a b hab => h _ _ (hs a b hab)

/-- **A stretch without places of some kind.** If the property holds wherever the text begins with
a character of the stretch, only what follows it matters. -/
theorem allAt_append_of {a : List α}
    (h : ∀ prev' a₁ c a₂, a = a₁ ++ c :: a₂ → P prev' (c :: a₂ ++ s))
    (hs : AllAt P (lastOr prev a) s) : AllAt P prev (a ++ s) := by
  induction a generalizing prev with
  | nil => exact hs
  | cons d a ih =>
    refine ⟨h prev [] d a rfl, ih (fun prev' a₁ c a₂ ha => ?_) (by rwa [lastOr_cons] at hs)⟩
    exact h prev' (d :: a₁) c a₂ (by rw [ha, List.cons_append])

/-- The same, where the property holds of a text that does not go on with `x`. -/
theorem allAt_append_of_second {x : α} {a : List α}
    (hP : ∀ prev c s, s.head? ≠ some x → P prev (c :: s)) (ha : x ∉ a) (hhead : s.head? ≠ some x)
    (hs : AllAt P (lastOr prev a) s) : AllAt P prev (a ++ s) := by
  refine allAt_append_of (fun prev' a₁ c a₂ hac => hP prev' c (a₂ ++ s) ?_) hs
  cases a₂ with
  | nil => exact hhead
  | cons d a₂ =>
    intro hd
    obtain rfl : d = x := Option.some.inj hd
    refine ha ?_
    rw [hac]
    exact List.mem_append_right _ (List.mem_cons_of_mem _ List.mem_cons_self)

theorem isMatch_eq_false_iff {r : Regex α} :
    isMatch r s = false ↔ AllAt (fun prev s => matchAt r prev s = none) none s := by
  have hfind : ∀ (s : List α) (prev : Option α),
      find r prev s = none ↔ AllAt (fun prev s => matchAt r prev s = none) prev s := by
    intro s
    induction s with
    | nil => intro prev; rw [find_nil, Option.map_eq_none_iff, AllAt]
    | cons c s ih =>
      intro prev
      rw [find_cons, AllAt, ← ih]
      cases matchAt r prev (c :: s) with
      | none => simp
      | some q => simp
  rw [isMatch, Option.isSome_eq_false_iff, Option.isNone_iff_eq_none, hfind]

/-! ### Where a search stops -/

theorem of_find {r : Regex α} {before rest : List α} {q : Pos α}
    (h : find r prev s = some (before, rest, q)) :
    before ++ rest = s ∧ matchAt r (lastOr prev before) rest = some q := by
  induction s generalizing prev before with
  | nil =>
    obtain ⟨q', hq', heq⟩ := Option.map_eq_some_iff.mp h
    obtain ⟨rfl, rfl, rfl⟩ : [] = before ∧ [] = rest ∧ q' = q := by simpa using heq
    exact ⟨rfl, hq'⟩
  | cons c s ih =>
    rw [find_cons] at h
    rcases hmatch : matchAt r prev (c :: s) with _ | q'
    · rw [hmatch] at h
      obtain ⟨⟨before', rest', q'⟩, hfind, heq⟩ := Option.map_eq_some_iff.mp h
      obtain ⟨rfl, rfl, rfl⟩ : c :: before' = before ∧ rest' = rest ∧ q' = q := by
        simpa using heq
      obtain ⟨rfl, hat⟩ := ih hfind
      exact ⟨rfl, by rwa [lastOr_cons]⟩
    · rw [hmatch] at h
      obtain ⟨rfl, rfl, rfl⟩ : [] = before ∧ c :: s = rest ∧ q' = q := by simpa using h
      exact ⟨rfl, hmatch⟩

/-- **A search passes over a stretch without matches.** -/
theorem find_append {r : Regex α} : ∀ {a : List α} {prev : Option α},
    (∀ a₁ a₂, a = a₁ ++ a₂ → a₂ ≠ [] → matchAt r (lastOr prev a₁) (a₂ ++ s) = none) →
      find r prev (a ++ s) = (find r (lastOr prev a) s).map fun m => (a ++ m.1, m.2)
  | [], prev, _ => (congrFun Option.map_id (find r prev s)).symm
  | c :: a, prev, h => by
    have hhead : matchAt r prev (c :: (a ++ s)) = none :=
      h [] (c :: a) rfl (List.cons_ne_nil _ _)
    rw [List.cons_append, find_cons, hhead, lastOr_cons, find_append fun a₁ a₂ ha hne => ?_,
      Option.map_map]
    · rfl
    · rw [← lastOr_cons]
      exact h (c :: a₁) a₂ (congrArg (c :: ·) ha) hne

theorem find_of_matchAt {r : Regex α} {q : Pos α} (h : matchAt r prev s = some q) :
    find r prev s = some ([], s, q) := by
  cases s with
  | nil => rw [find_nil, h, Option.map_some]
  | cons c s => rw [find_cons, h]

/-- **A search stops at a match at the latest.** -/
theorem exists_find_of_matchAt {r : Regex α} : ∀ {a : List α} {prev : Option α},
    matchAt r (lastOr prev a) s ≠ none →
      ∃ before rest q, find r prev (a ++ s) = some (before, rest, q) ∧ before <+: a
  | [], prev, h => by
    obtain ⟨q, hq⟩ := Option.ne_none_iff_exists'.mp h
    exact ⟨[], s, q, find_of_matchAt hq, List.prefix_refl _⟩
  | c :: a, prev, h => by
    rw [lastOr_cons] at h
    rcases hmatch : matchAt r prev (c :: (a ++ s)) with _ | q
    · obtain ⟨before, rest, q, hfind, hbefore⟩ := exists_find_of_matchAt h
      refine ⟨c :: before, rest, q, ?_, (List.prefix_cons_inj c).mpr hbefore⟩
      rw [List.cons_append, find_cons, hmatch, hfind, Option.map_some]
    · exact ⟨[], _, q, find_of_matchAt hmatch, List.nil_prefix⟩

end places

/-! ### Expressions that see no difference -/

section invariant

variable {g : α → α}

/-- **The expression sees no difference** between a character and what `g` makes of it. -/
def Invariant (g : α → α) : Regex α → Prop
  | .one p => ∀ c, p (g c) = p c
  | .many p => ∀ c, p (g c) = p c
  | .cat r s => Invariant g r ∧ Invariant g s
  | .alt r s => Invariant g r ∧ Invariant g s
  | .group _ r => Invariant g r
  | .boundary word => ∀ c, word (g c) = word c
  | .eps | .start | .stop => True

/-- A place of a text in which each character is replaced. -/
def Pos.map (g : α → α) (q : Pos α) : Pos α :=
  ⟨q.prev.map g, q.rest.map g, q.groups.map fun x => (x.1, x.2.map g)⟩

/-- **The ways to match a text in which each character is replaced.** -/
theorem run_map {r : Regex α} (h : Invariant g r) (q : Pos α) :
    run r (q.map g) = (run r q).map (Pos.map g) := by
  induction r generalizing q with
  | eps => rfl
  | one p =>
    obtain ⟨prev, _ | ⟨c, s⟩, groups⟩ := q
    · rfl
    · show (if p (g c) then _ else _) = (if p c then _ else _ : List (Pos α)).map _
      rw [h c]
      split <;> rfl
  | many p =>
    obtain ⟨prev, s, groups⟩ := q
    show runMany p _ (prev.map g) (s.map g) = (runMany p groups prev s).map (Pos.map g)
    induction s generalizing prev with
    | nil => rfl
    | cons c s ih =>
      rw [List.map_cons, runMany_cons, runMany_cons, h c, List.map_append]
      congr 1
      split
      · exact ih (some c)
      · rfl
  | cat r s ihr ihs =>
    show (run r (q.map g)).flatMap (run s) = ((run r q).flatMap (run s)).map _
    rw [ihr h.1, List.flatMap_map, List.map_flatMap]
    exact List.flatMap_congr fun q' _ => ihs h.2 q'
  | alt r s ihr ihs =>
    show run r (q.map g) ++ run s (q.map g) = (run r q ++ run s q).map _
    rw [ihr h.1, ihs h.2, List.map_append]
  | group n r ih =>
    show (run r (q.map g)).map _ = ((run r q).map _).map _
    rw [ih h, List.map_map, List.map_map]
    refine List.map_congr_left fun q' _ => ?_
    simp [Pos.map, passed]
  | boundary word =>
    obtain ⟨prev, s, groups⟩ := q
    have hprev : (prev.map g).any word = prev.any word := by
      rcases prev with _ | c
      · rfl
      · exact h c
    have hhead : (s.map g).head?.any word = s.head?.any word := by
      rcases s with _ | ⟨c, s⟩
      · rfl
      · exact h c
    show (if (prev.map g).any word != (s.map g).head?.any word then _ else _) =
      (if prev.any word != s.head?.any word then _ else _ : List (Pos α)).map _
    rw [hprev, hhead]
    split <;> rfl
  | start =>
    obtain ⟨_ | c, s, groups⟩ := q <;> rfl
  | stop =>
    obtain ⟨prev, _ | ⟨c, s⟩, groups⟩ := q <;> rfl

theorem invariant_seq : ∀ {rs : List (Regex α)}, (∀ r ∈ rs, Invariant g r) → Invariant g (seq rs)
  | [], _ => trivial
  | _ :: _, h => ⟨h _ List.mem_cons_self, invariant_seq fun r hr => h r (List.mem_cons_of_mem _ hr)⟩

theorem invariant_oneOf : ∀ {rs : List (Regex α)}, rs ≠ [] → (∀ r ∈ rs, Invariant g r) →
    Invariant g (oneOf rs)
  | [], hne, _ => absurd rfl hne
  | [r], _, h => h r List.mem_cons_self
  | r :: r' :: rs, _, h => ⟨h r List.mem_cons_self,
      invariant_oneOf (List.cons_ne_nil r' rs) fun x hx => h x (List.mem_cons_of_mem r hx)⟩

theorem invariant_wordBy [DecidableEq α] {fold : α → α} (h : ∀ c, fold (g c) = fold c)
    (w : List α) : Invariant g (wordBy fold w) := by
  refine invariant_seq fun r hr => ?_
  obtain ⟨c, _, rfl⟩ := List.mem_map.mp hr
  intro d
  show decide (fold (g d) = c) = decide (fold d = c)
  rw [h d]

theorem invariant_upTo {p : α → Bool} (h : ∀ c, p (g c) = p c) : ∀ n, Invariant g (upTo p n)
  | 0 => trivial
  | n + 1 => ⟨⟨h, invariant_upTo h n⟩, trivial⟩

theorem isSome_matchAt_map {r : Regex α} (h : Invariant g r) (prev : Option α) (s : List α) :
    (matchAt r (prev.map g) (s.map g)).isSome = (matchAt r prev s).isSome := by
  have hrun : run r ⟨prev.map g, s.map g, []⟩ = (run r ⟨prev, s, []⟩).map (Pos.map g) :=
    run_map h ⟨prev, s, []⟩
  rw [matchAt, matchAt, hrun, List.head?_map, Option.isSome_map]

end invariant

/-! ### What a replacement leaves -/

section replaced

variable {r : Regex α} {by' : List α → Pos α → List α} {prev : Option α} {s out : List α}

/-- **A text with all its matches replaced**, from left to right: a character is kept where no
match is, and a match gives way to what it is replaced by. -/
inductive Replaced (r : Regex α) (by' : List α → Pos α → List α) :
    Option α → List α → List α → Prop
  | nil (prev : Option α) : Replaced r by' prev [] []
  | keep {prev : Option α} {c : α} {s out : List α} (hnone : matchAt r prev (c :: s) = none)
      (hrest : Replaced r by' (some c) s out) : Replaced r by' prev (c :: s) (c :: out)
  | hit {prev : Option α} {m rest out : List α} {q : Pos α} (hne : m ≠ [])
      (hmatch : matchAt r prev (m ++ rest) = some q) (hq : q.rest = rest)
      (hrest : Replaced r by' (lastOr prev m) rest out) :
      Replaced r by' prev (m ++ rest) (by' m q ++ out)

theorem replaceFrom_append (r : Regex α) (by' : List α → Pos α → List α) (prev : Option α)
    (a s : List α) : replaceFrom r by' a.length prev (a ++ s) =
      replaceFrom r by' 0 (lastOr prev a) s := by
  induction a generalizing prev with
  | nil => rfl
  | cons c a ih =>
    rw [List.length_cons, List.cons_append, replaceFrom, ih, lastOr_cons]

theorem passed_append (a s : List α) : passed (a ++ s) s = a := by
  simp [passed]

/-- **`replace_all` replaces all matches**, of an expression that always takes something. -/
theorem replaced_replaceFrom (by' : List α → Pos α → List α)
    (htakes : ∀ prev s q, matchAt r prev s = some q → q.rest ≠ s) (prev : Option α)
    (s : List α) : Replaced r by' prev s (replaceFrom r by' 0 prev s) := by
  induction hlen : s.length using Nat.strong_induction_on generalizing prev s with
  | _ n ih =>
  cases s with
  | nil => exact .nil prev
  | cons c s =>
    rw [replaceFrom]
    cases hmatch : matchAt r prev (c :: s) with
    | none => exact .keep hmatch (ih s.length (by simp [← hlen]) (some c) s rfl)
    | some q =>
      obtain ⟨m, hm⟩ : q.rest <:+ c :: s := suffix_of_mem_run (List.mem_of_head? hmatch)
      cases m with
      | nil => exact absurd hm (htakes prev _ q hmatch)
      | cons d m =>
        obtain ⟨rfl, rfl⟩ : d = c ∧ m ++ q.rest = s := List.cons.inj hm
        have hskip : (d :: (m ++ q.rest)).length - q.rest.length = m.length + 1 := by
          simp only [List.length_cons, List.length_append]
          omega
        have hlt : q.rest.length < n := by
          rw [← hlen]
          simp only [List.length_cons, List.length_append]
          omega
        have hpassed : passed (d :: (m ++ q.rest)) q.rest = d :: m := passed_append (d :: m) q.rest
        simp only [hskip, hpassed]
        rw [replaceFrom_append, ← lastOr_cons prev]
        exact .hit (m := d :: m) (List.cons_ne_nil _ _) hmatch rfl (ih _ hlt _ _ rfl)

theorem Replaced.nil_inv (h : Replaced r by' prev [] out) : out = [] := by
  generalize htext : [] = text at h
  cases h with
  | nil => rfl
  | keep => cases htext
  | hit hne => exact absurd (List.append_eq_nil_iff.mp htext.symm).1 hne

/-- **What comes of a text that begins with a character**: it is kept, or a match begins with
it. -/
theorem Replaced.cons_inv {c : α} (h : Replaced r by' prev (c :: s) out) :
    (matchAt r prev (c :: s) = none ∧ ∃ out', out = c :: out' ∧
      Replaced r by' (some c) s out') ∨
    ∃ m rest q out', c :: s = m ++ rest ∧ matchAt r prev (c :: s) = some q ∧ q.rest = rest ∧
      out = by' m q ++ out' ∧ Replaced r by' (lastOr prev m) rest out' := by
  generalize htext : c :: s = text at h
  cases h with
  | nil => cases htext
  | keep hnone hrest =>
    obtain ⟨rfl, rfl⟩ := List.cons.inj htext
    exact .inl ⟨hnone, _, rfl, hrest⟩
  | hit _ hmatch hq hrest => exact .inr ⟨_, _, _, _, rfl, hmatch, hq, rfl, hrest⟩

theorem head?_dropWhile_any (p : α → Bool) (s : List α) : (s.dropWhile p).head?.any p = false := by
  induction s with
  | nil => rfl
  | cons c s ih =>
    by_cases hc : p c = true
    · rw [List.dropWhile_cons_of_pos hc, ih]
    · rw [List.dropWhile_cons_of_neg hc]
      exact Bool.eq_false_iff.mpr hc

theorem dropWhile_of_head?_any {p : α → Bool} (h : s.head?.any p = false) : s.dropWhile p = s := by
  cases s with
  | nil => rfl
  | cons c s => exact List.dropWhile_cons_of_neg (Bool.eq_false_iff.mp h)

theorem Replaced.eq_of_allAt (h : Replaced r by' prev s out)
    (hnone : AllAt (fun prev s => matchAt r prev s = none) prev s) : out = s := by
  induction h with
  | nil => rfl
  | keep _ _ ih => rw [ih hnone.2]
  | hit _ hmatch _ _ =>
    rw [hnone.head] at hmatch
    cases hmatch

end replaced

end Regex

end EmeraldExchange
