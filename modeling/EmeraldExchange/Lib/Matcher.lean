import Mathlib.Data.List.Infix

/-!
# Matchers

A matcher finds something at the head of a text, or nothing. Its matches in a text are the
`spans`: from left to right, none overlapping another.

What it finds may change when more text follows, but not in every way
(`Cut`): what is found in a text is found, or something else is, however
the text goes on; and what is found in a text within its head is found in the head alone.

A text that comes in parts is searched in a buffer, from which all is dropped but what a match
to come may begin with. The matches found so are those of the whole text, if a match that the
end of a part cuts is not found there in another form, and what there is of it is kept
(`Matcher.stream_eq`).
-/

namespace EmeraldExchange

/-! ### Cutting the text off -/

section cut

variable {α β : Type*}

/-- **What a search finds in a text, and in the text cut off before `t`**: if it finds something in
what is left, it finds something in the whole; and what it finds in the whole before `t`, it finds
in what is left. -/
structure Cut (t : List α) (whole part : Option (β × List α)) : Prop where
  extend : part.isSome → whole.isSome
  restrict : ∀ x rest, whole = some (x, rest ++ t) → part = some (x, rest)

variable {t : List α} {whole part whole' part' : Option (β × List α)}

theorem Cut.eq_none (h : Cut t whole part) (hnone : whole = none) : part = none := by
  have hextend := h.extend
  rw [hnone] at hextend
  simpa using hextend

@[simp] theorem Cut.none : Cut (β := β) t .none .none := ⟨id, by simp⟩

/-- A search that finds nothing before `t`. -/
theorem Cut.of_long (h : ∀ r, whole = some r → r.2.length < t.length) : Cut t whole .none := by
  refine ⟨by simp, fun x rest hx => ?_⟩
  have hlt := h _ hx
  simp only [List.length_append] at hlt
  omega

theorem Cut.or (h : Cut t whole part) (h' : Cut t whole' part') :
    Cut t (whole.or whole') (part.or part') := by
  constructor
  · intro hsome
    rw [Option.isSome_or, Bool.or_eq_true] at hsome ⊢
    exact hsome.imp h.extend h'.extend
  · intro x rest hx
    cases hwhole : whole with
    | none =>
      rw [hwhole] at hx
      rw [h.eq_none hwhole]
      exact h'.restrict x rest hx
    | some r =>
      rw [hwhole] at hx
      rw [h.restrict x rest (hwhole.trans hx)]
      rfl

/-- A search that finds nothing before `t`, as the first choice or the second. -/
theorem Cut.or_long (h : Cut t whole part)
    (hlong : ∀ r, whole' = some r → r.2.length < t.length) :
    Cut t (whole'.or whole) part ∧ Cut t (whole.or whole') part := by
  have hnot : ∀ x rest, whole' ≠ some (x, rest ++ t) := by
    intro x rest hx
    have hlt := hlong _ hx
    simp only [List.length_append] at hlt
    omega
  refine ⟨⟨fun hsome => ?_, fun x rest hx => ?_⟩, ⟨fun hsome => ?_, fun x rest hx => ?_⟩⟩
  · rw [Option.isSome_or, h.extend hsome, Bool.or_true]
  · cases hwhole : whole' with
    | none =>
      rw [hwhole] at hx
      exact h.restrict x rest hx
    | some r =>
      rw [hwhole] at hx
      exact absurd (hwhole.trans hx) (hnot x rest)
  · rw [Option.isSome_or, h.extend hsome, Bool.true_or]
  · cases hwhole : whole with
    | none =>
      rw [hwhole] at hx
      exact absurd hx (hnot x rest)
    | some r =>
      rw [hwhole] at hx
      exact h.restrict x rest (hwhole.trans hx)

theorem Cut.map {γ : Type*} (f : β → γ) (h : Cut t whole part) :
    Cut t (whole.map fun r => (f r.1, r.2)) (part.map fun r => (f r.1, r.2)) := by
  constructor
  · simpa using h.extend
  · intro y rest hy
    obtain ⟨⟨x, rest'⟩, hx, heq⟩ := Option.map_eq_some_iff.mp hy
    obtain ⟨rfl, rfl⟩ := Prod.mk.inj heq
    rw [h.restrict x rest hx]
    rfl

end cut

/-! ### Matchers -/

/-- **A matcher**: it finds something at the head of a text and tells what is left. -/
structure Matcher (α β : Type*) where
  next : List α → Option (β × List α)
  suffix : ∀ s r, next s = some r → r.2 <:+ s
  shorter : ∀ s r, next s = some r → r.2.length < s.length
  cut : ∀ s t, Cut t (next (s ++ t)) (next s)

/-- A match: where it begins, where it ends, and what was found. -/
structure Span (β : Type*) where
  start : ℕ
  stop : ℕ
  value : β
  deriving DecidableEq

def Span.shift {β : Type*} (d : ℕ) (sp : Span β) : Span β := ⟨d + sp.start, d + sp.stop, sp.value⟩

def endOf {β : Type*} (pos : ℕ) (l : List (Span β)) : ℕ := (l.getLast?.map Span.stop).getD pos

@[simp] theorem endOf_nil {β : Type*} (pos : ℕ) : endOf (β := β) pos [] = pos := rfl

@[simp] theorem endOf_cons {β : Type*} (pos : ℕ) (sp : Span β) (l : List (Span β)) :
    endOf pos (sp :: l) = endOf sp.stop l := by
  cases l <;> simp [endOf, List.getLast?_cons]

theorem endOf_of_ne_nil {β : Type*} {l : List (Span β)} (h : l ≠ []) (pos pos' : ℕ) :
    endOf pos l = endOf pos' l := by
  obtain ⟨sp, l, rfl⟩ := List.exists_cons_of_ne_nil h
  rw [endOf_cons, endOf_cons]

theorem endOf_shift {β : Type*} (d pos : ℕ) (l : List (Span β)) :
    endOf (d + pos) (l.map (Span.shift d)) = d + endOf pos l := by
  induction l generalizing pos with
  | nil => rfl
  | cons sp l ih =>
    rw [List.map_cons, endOf_cons, endOf_cons]
    exact ih sp.stop

namespace Matcher

variable {α β : Type*} (M : Matcher α β)

/-- The matches from a position on, the next `skip` characters being part of one. -/
def spansFrom : ℕ → ℕ → List α → List (Span β)
  | _, _, [] => []
  | pos, skip + 1, _ :: s => spansFrom (pos + 1) skip s
  | pos, 0, c :: s =>
    match M.next (c :: s) with
    | some (x, rest) =>
      ⟨pos, pos + (s.length + 1 - rest.length), x⟩ ::
        spansFrom (pos + 1) (s.length - rest.length) s
    | none => spansFrom (pos + 1) 0 s

/-- The matches in a text that begins at a position. -/
def spansAt (pos : ℕ) (s : List α) : List (Span β) := M.spansFrom pos 0 s

/-- **The matches in a text.** -/
def spans (s : List α) : List (Span β) := M.spansAt 0 s

def free : List α → Bool
  | [] => true
  | c :: s => (M.next (c :: s)).isNone && free s

/-- **Search a text that comes in parts**, with what is in the buffer: `keep` is what is kept of
what follows the last match. -/
def stream (keep : List α → List α) : List α → List (List α) → List β
  | _, [] => []
  | buf, part :: parts =>
    let text := buf ++ part
    let found := M.spans text
    found.map Span.value ++ stream keep (keep (text.drop (endOf 0 found))) parts

variable {M}

/-! ### The matches of a text -/

@[simp] theorem spansAt_nil (pos : ℕ) : M.spansAt pos [] = [] := rfl

theorem spansFrom_skip (pos skip : ℕ) (s : List α) :
    M.spansFrom pos skip s = M.spansAt (pos + skip) (s.drop skip) := by
  induction s generalizing pos skip with
  | nil => simp [spansFrom]
  | cons c s ih =>
    cases skip with
    | zero => rfl
    | succ skip =>
      rw [spansFrom, ih, List.drop_succ_cons]
      congr 1
      omega

theorem length_pos_of_next {used rest : List α} {x : β}
    (h : M.next (used ++ rest) = some (x, rest)) : 0 < used.length := by
  have hlt := M.shorter _ _ h
  simp only [List.length_append] at hlt
  omega

theorem spansAt_of_next {used rest : List α} {x : β} (h : M.next (used ++ rest) = some (x, rest))
    (pos : ℕ) : M.spansAt pos (used ++ rest) =
      ⟨pos, pos + used.length, x⟩ :: M.spansAt (pos + used.length) rest := by
  have hpos := length_pos_of_next h
  cases used with
  | nil => cases hpos
  | cons c used =>
    rw [List.cons_append] at h ⊢
    rw [spansAt, spansFrom, h]
    simp only [spansFrom_skip, List.length_append, List.length_cons, Nat.add_sub_cancel_right,
      List.drop_left]
    congr 2 <;> omega

theorem spansAt_cons_of_none {c : α} {s : List α} (h : M.next (c :: s) = none) (pos : ℕ) :
    M.spansAt pos (c :: s) = M.spansAt (pos + 1) s := by
  rw [spansAt, spansFrom, h]
  rfl

@[elab_as_elim] theorem induct {motive : List α → Prop} (nil : motive [])
    (next : ∀ used x rest, M.next (used ++ rest) = some (x, rest) → motive rest →
      motive (used ++ rest))
    (skip : ∀ c s, M.next (c :: s) = none → motive s → motive (c :: s)) (s : List α) :
    motive s := by
  induction h : s.length using Nat.strong_induction_on generalizing s with
  | _ n ih =>
    cases hnext : M.next s with
    | some r =>
      have hlt := M.shorter _ _ hnext
      obtain ⟨used, hused⟩ := M.suffix _ _ hnext
      rw [← hused] at hnext ⊢
      exact next used r.1 r.2 hnext (ih _ (h ▸ hlt) _ rfl)
    | none =>
      cases s with
      | nil => exact nil
      | cons c s => exact skip c s hnext (ih _ (by simp [← h]) _ rfl)

theorem spansAt_add (d pos : ℕ) (s : List α) :
    M.spansAt (d + pos) s = (M.spansAt pos s).map (Span.shift d) := by
  induction s using M.induct generalizing pos with
  | nil => rfl
  | next used x rest h ih =>
    rw [spansAt_of_next h, spansAt_of_next h, Nat.add_assoc, ih]
    rfl
  | skip c s h ih => rw [spansAt_cons_of_none h, spansAt_cons_of_none h, Nat.add_assoc, ih]

theorem spansAt_eq (pos : ℕ) (s : List α) :
    M.spansAt pos s = (M.spans s).map (Span.shift pos) := spansAt_add pos 0 s

theorem free_of_next {s : List α} {r : β × List α} (h : M.next s = some r) : M.free s = false := by
  have hlt := M.shorter _ _ h
  cases s with
  | nil => cases hlt
  | cons c s => simp [free, h]

theorem free_iff (pos : ℕ) (s : List α) : M.free s = true ↔ M.spansAt pos s = [] := by
  induction s using M.induct generalizing pos with
  | nil => simp [free]
  | next used x rest h ih => simp [spansAt_of_next h, free_of_next h]
  | skip c s h ih => simp [spansAt_cons_of_none h, free, h, ih (pos + 1)]

theorem of_mem_spansAt {pos : ℕ} {s : List α} {sp : Span β} (h : sp ∈ M.spansAt pos s) :
    pos ≤ sp.start ∧ sp.start < sp.stop ∧ sp.stop ≤ pos + s.length ∧
      M.next (s.drop (sp.start - pos)) = some (sp.value, s.drop (sp.stop - pos)) := by
  induction s using M.induct generalizing pos with
  | nil => cases h
  | next used x rest hnext ih =>
    have hpos := length_pos_of_next hnext
    rw [spansAt_of_next hnext] at h
    rcases List.mem_cons.mp h with rfl | h
    · refine ⟨le_rfl, by simpa using hpos, by simp, ?_⟩
      simpa using hnext
    · obtain ⟨hstart, hlen, hstop, hfound⟩ := ih h
      refine ⟨by omega, hlen, by simp only [List.length_append]; omega, ?_⟩
      have hs : sp.start - pos = used.length + (sp.start - (pos + used.length)) := by omega
      have ht : sp.stop - pos = used.length + (sp.stop - (pos + used.length)) := by omega
      rw [hs, ht, List.drop_length_add_append, List.drop_length_add_append]
      exact hfound
  | skip c s hnext ih =>
    rw [spansAt_cons_of_none hnext] at h
    obtain ⟨hstart, hlen, hstop, hfound⟩ := ih h
    refine ⟨by omega, hlen, by simp only [List.length_cons]; omega, ?_⟩
    have hs : sp.start - pos = sp.start - (pos + 1) + 1 := by omega
    have ht : sp.stop - pos = sp.stop - (pos + 1) + 1 := by omega
    rw [hs, ht, List.drop_succ_cons, List.drop_succ_cons]
    exact hfound

theorem endOf_spansAt (pos : ℕ) (s : List α) :
    pos ≤ endOf pos (M.spansAt pos s) ∧ endOf pos (M.spansAt pos s) ≤ pos + s.length := by
  rcases List.eq_nil_or_concat (M.spansAt pos s) with h | ⟨l, sp, h⟩
  · simp [h]
  · have hmem : sp ∈ M.spansAt pos s := by simp [h]
    obtain ⟨hstart, hlen, hstop, -⟩ := of_mem_spansAt hmem
    simp only [h, endOf, List.concat_eq_append, List.getLast?_concat, Option.map_some,
      Option.getD_some]
    omega

/-! ### A text in two parts -/

/-- What a matcher finds in a text that goes on: the same, or a match that the end of the text
cuts. -/
theorem next_append {s rest : List α} {x : β} (h : M.next s = some (x, rest)) (t : List α) :
    M.next (s ++ t) = some (x, rest ++ t) ∨
      ∃ y rest', M.next (s ++ t) = some (y, rest') ∧ rest'.length < t.length := by
  obtain ⟨⟨y, rest'⟩, hwhole⟩ := Option.isSome_iff_exists.mp ((M.cut s t).extend (by simp [h]))
  rcases lt_or_ge rest'.length t.length with hlt | hge
  · exact Or.inr ⟨y, rest', hwhole, hlt⟩
  · left
    obtain ⟨rest'', rfl⟩ : t <:+ rest' :=
      List.suffix_of_suffix_length_le (List.suffix_append s t) (M.suffix _ _ hwhole) hge
    have hpart := (M.cut s t).restrict _ _ hwhole
    rw [h] at hpart
    obtain ⟨rfl, rfl⟩ := Prod.mk.inj (Option.some.inj hpart)
    exact hwhole

theorem next_append_of_none {s : List α} (h : M.next s = none) (t : List α) :
    M.next (s ++ t) = none ∨ ∃ y rest', M.next (s ++ t) = some (y, rest') ∧
      rest'.length < t.length := by
  cases hwhole : M.next (s ++ t) with
  | none => exact Or.inl rfl
  | some r =>
    refine Or.inr ⟨r.1, r.2, rfl, ?_⟩
    by_contra hge
    obtain ⟨rest, hrest⟩ : t <:+ r.2 :=
      List.suffix_of_suffix_length_le (List.suffix_append s t) (M.suffix _ _ hwhole) (by omega)
    have hpart := (M.cut s t).restrict r.1 rest (by rw [hwhole, hrest])
    rw [h] at hpart
    cases hpart

theorem free_of_next_append {pos : ℕ} {s t rest : List α} {x : β} (hs : s ≠ [])
    (h : ∀ sp ∈ M.spansAt pos (s ++ t), sp.start < pos + s.length → pos + s.length < sp.stop →
      M.free (s.drop (sp.start - pos)) = true)
    (hnext : M.next (s ++ t) = some (x, rest)) (hlt : rest.length < t.length) :
    M.free s = true := by
  have hpos := List.length_pos_iff.mpr hs
  obtain ⟨used, hused⟩ := M.suffix _ _ hnext
  have hlen := congrArg List.length hused
  simp only [List.length_append] at hlen
  have hspans := spansAt_of_next (hused ▸ hnext) pos
  rw [hused] at hspans
  have hfree := h ⟨pos, pos + used.length, x⟩ (by rw [hspans]; exact List.mem_cons_self)
    (by simp only; omega) (by simp only; omega)
  simpa using hfree

/-- **The matches of a text in two parts** are those of the first part, and those from the last of
them on, if the first part has no match where it has the beginning of one. -/
theorem spansAt_append (pos : ℕ) {s t : List α}
    (h : ∀ sp ∈ M.spansAt pos (s ++ t), sp.start < pos + s.length → pos + s.length < sp.stop →
      M.free (s.drop (sp.start - pos)) = true) :
    M.spansAt pos (s ++ t) = M.spansAt pos s ++ M.spansAt (endOf pos (M.spansAt pos s))
      (s.drop (endOf pos (M.spansAt pos s) - pos) ++ t) := by
  induction s using M.induct generalizing pos with
  | nil => simp
  | next used x rest hnext ih =>
    rcases next_append hnext t with hwhole | ⟨y, rest', hwhole, hcut⟩
    · rw [List.append_assoc] at hwhole
      have hend := (endOf_spansAt (M := M) (pos + used.length) rest).1
      have hs : endOf (pos + used.length) (M.spansAt (pos + used.length) rest) - pos =
          used.length + (endOf (pos + used.length) (M.spansAt (pos + used.length) rest) -
            (pos + used.length)) := by omega
      rw [spansAt_of_next hnext, endOf_cons, hs, List.drop_length_add_append, List.append_assoc,
        spansAt_of_next hwhole, List.cons_append]
      refine congrArg (List.cons _) (ih _ fun sp hsp hstart hstop => ?_)
      have hge := (of_mem_spansAt hsp).1
      have hfree := h sp
        (by rw [List.append_assoc, spansAt_of_next hwhole]; exact List.mem_cons_of_mem _ hsp)
        (by simp only [List.length_append]; omega) (by simp only [List.length_append]; omega)
      have hd : sp.start - pos = used.length + (sp.start - (pos + used.length)) := by omega
      rwa [hd, List.drop_length_add_append] at hfree
    · -- what is found in the first part is not free of matches
      have hne : used ++ rest ≠ [] :=
        List.append_ne_nil_of_left_ne_nil (List.ne_nil_of_length_pos (length_pos_of_next hnext)) _
      have hfree := free_of_next_append hne h hwhole hcut
      rw [free_of_next hnext] at hfree
      cases hfree
  | skip c s hnext ih =>
    rcases next_append_of_none hnext t with hwhole | ⟨y, rest', hwhole, hcut⟩
    · have hwhole' : M.next (c :: (s ++ t)) = none := hwhole
      rw [List.cons_append, spansAt_cons_of_none hwhole', spansAt_cons_of_none hnext]
      have hrest := ih (pos + 1) fun sp hsp hstart hstop => by
        have hmem : sp ∈ M.spansAt pos (c :: s ++ t) := by
          rw [List.cons_append, spansAt_cons_of_none hwhole']
          exact hsp
        have hge := (of_mem_spansAt hsp).1
        have hfree := h sp hmem (by simp only [List.length_cons]; omega)
          (by simp only [List.length_cons]; omega)
        have hs : sp.start - pos = sp.start - (pos + 1) + 1 := by omega
        rwa [hs, List.drop_succ_cons] at hfree
      by_cases hnil : M.spansAt (pos + 1) s = []
      · rw [hnil, endOf_nil, Nat.sub_self, List.drop_zero, List.nil_append, List.cons_append,
          spansAt_cons_of_none hwhole']
      · have hend := (endOf_spansAt (M := M) (pos + 1) s).1
        have hs : endOf (pos + 1) (M.spansAt (pos + 1) s) - pos =
            endOf (pos + 1) (M.spansAt (pos + 1) s) - (pos + 1) + 1 := by omega
        rw [endOf_of_ne_nil hnil pos (pos + 1), hs, List.drop_succ_cons]
        exact hrest
    · have hfree := free_of_next_append (List.cons_ne_nil c s) h hwhole hcut
      rw [(free_iff pos _).mp hfree]
      simp

theorem spansAt_drop {d pos : ℕ} {s : List α} (hd : d ≤ s.length)
    (h : ∀ sp ∈ M.spansAt pos s, pos + d ≤ sp.start) :
    M.spansAt pos s = M.spansAt (pos + d) (s.drop d) := by
  induction d generalizing pos s with
  | zero => rfl
  | succ d ih =>
    cases s with
    | nil => cases hd
    | cons c s =>
      have hnext : M.next (c :: s) = none := by
        by_contra hsome
        obtain ⟨⟨x, rest⟩, hnext⟩ := Option.ne_none_iff_exists'.mp hsome
        obtain ⟨used, hused⟩ := M.suffix _ _ hnext
        rw [← hused] at h hnext
        rw [spansAt_of_next hnext] at h
        have hle : pos + (d + 1) ≤ pos := h _ List.mem_cons_self
        omega
      rw [spansAt_cons_of_none hnext] at h ⊢
      rw [ih (Nat.le_of_succ_le_succ hd) fun sp hsp => by have := h sp hsp; omega,
        List.drop_succ_cons, Nat.add_assoc, Nat.add_comm 1 d]

/-! ### A text in many parts -/

theorem free_drop_endOf (pos : ℕ) (s : List α) :
    M.free (s.drop (endOf pos (M.spansAt pos s) - pos)) = true := by
  have happend := spansAt_append (M := M) pos (s := s) (t := []) fun sp hsp _ hlt => by
    have hle := (of_mem_spansAt hsp).2.2.1
    rw [List.append_nil] at hle
    omega
  rw [List.append_nil, List.append_nil] at happend
  exact (free_iff _ _).mpr (List.self_eq_append_right.mp happend)

theorem free_of_suffix {s t : List α} (h : t <:+ s) (hs : M.free s = true) : M.free t = true := by
  obtain ⟨r, rfl⟩ := h
  induction r with
  | nil => exact hs
  | cons c r ih =>
    rw [List.cons_append, free, Bool.and_eq_true] at hs
    exact ih hs.2

theorem lt_stop_of_free {pos : ℕ} {s t : List α} {sp : Span β} (hs : M.free s = true)
    (h : sp ∈ M.spansAt pos (s ++ t)) : pos + s.length < sp.stop := by
  obtain ⟨hstart, hlen, -, hfound⟩ := of_mem_spansAt h
  by_contra hle
  rw [List.drop_append_of_le_length (by omega), List.drop_append_of_le_length (by omega)] at hfound
  have hpart := (M.cut _ t).restrict _ _ hfound
  have hfree := free_of_suffix (List.drop_suffix (sp.start - pos) s) hs
  rw [free_of_next hpart] at hfree
  cases hfree

/-- What is kept of a match that the end of a part cuts: there is no match in it, and all of it is
kept whatever is before it. -/
def Kept (M : Matcher α β) (keep : List α → List α) (head : List α) : Prop :=
  M.free head = true ∧ ∀ u, head.length ≤ (keep (u ++ head)).length

theorem take_drop_eq {s t r : List α} {pos start : ℕ} (hs : s.drop pos = t ++ r)
    (hle : pos ≤ start) (hge : start ≤ pos + t.length) :
    (s.drop start).take (pos + t.length - start) = t.drop (start - pos) := by
  obtain ⟨d, rfl⟩ := Nat.exists_eq_add_of_le hle
  rw [← List.drop_drop, hs, Nat.add_sub_cancel_left, List.drop_append_of_le_length (by omega)]
  refine List.take_left' ?_
  rw [List.length_drop]
  omega

/-- **After one part** the buffer begins at a position from which on the text has all the matches
that are still to come. -/
theorem exists_keep {keep : List α → List α} (hkeep : ∀ u, keep u <:+ u) (pos : ℕ) {t r : List α}
    (hkept : ∀ sp ∈ M.spansAt pos (t ++ r), sp.start < pos + t.length →
      pos + t.length < sp.stop → M.Kept keep (t.drop (sp.start - pos))) :
    ∃ d ≤ t.length, keep (t.drop (endOf pos (M.spansAt pos t) - pos)) = t.drop d ∧
      M.free (t.drop d) = true ∧
      M.spansAt pos (t ++ r) = M.spansAt pos t ++ M.spansAt (pos + d) (t.drop d ++ r) := by
  have happend := spansAt_append pos fun sp hsp hstart hstop => (hkept sp hsp hstart hstop).1
  have hfree := free_drop_endOf (M := M) pos t
  obtain ⟨hge, hle⟩ := endOf_spansAt (M := M) pos t
  generalize endOf pos (M.spansAt pos t) = e at happend hfree hge hle ⊢
  obtain ⟨k, rfl⟩ := Nat.exists_eq_add_of_le hge
  rw [Nat.add_sub_cancel_left] at happend hfree ⊢
  -- what is dropped of what follows the last match
  obtain ⟨d, hd, hdrop⟩ : ∃ d ≤ (t.drop k).length, keep (t.drop k) = (t.drop k).drop d :=
    ⟨_, Nat.sub_le _ _, List.suffix_iff_eq_drop.mp (hkeep _)⟩
  have hlen : (t.drop k).length = t.length - k := List.length_drop
  refine ⟨k + d, by omega, by rw [hdrop, List.drop_drop], ?_, ?_⟩
  · rw [← List.drop_drop]
    exact free_of_suffix (List.drop_suffix d _) hfree
  rw [happend, ← List.drop_drop, ← List.drop_append_of_le_length hd, ← Nat.add_assoc]
  refine congrArg _ (spansAt_drop (by rw [List.length_append]; omega) fun sp hsp => ?_)
  have hstart := (of_mem_spansAt hsp).1
  have hstop := lt_stop_of_free hfree hsp
  rcases lt_or_ge sp.start (pos + t.length) with hlt | hge
  · -- the end of the part cuts the match, and all there is of it is kept
    have hkeeps := (hkept sp (by rw [happend]; exact List.mem_append_right _ hsp) hlt
      (by omega)).2 ((t.drop k).take (sp.start - (pos + k)))
    have hsplit : (t.drop k).take (sp.start - (pos + k)) ++ t.drop (sp.start - pos) = t.drop k := by
      have hs : sp.start - pos = k + (sp.start - (pos + k)) := by omega
      rw [hs, ← List.drop_drop, List.take_append_drop]
    rw [hsplit, hdrop, List.length_drop, List.length_drop] at hkeeps
    omega
  · omega

/-- **A text that comes in parts has the matches of the whole**, if what there is of a match at the
end of a part is kept. -/
theorem stream_eq {keep : List α → List α} (hkeep : ∀ u, keep u <:+ u) {s : List α}
    {parts : List (List α)} (pos : ℕ) {buf : List α} (hs : s.drop pos = buf ++ parts.flatten)
    (hbuf : M.free buf = true)
    (h : ∀ before after, parts = before ++ after → ∀ sp ∈ M.spansAt pos (s.drop pos),
      sp.start < pos + (buf ++ before.flatten).length →
      pos + (buf ++ before.flatten).length < sp.stop →
      M.Kept keep ((s.drop sp.start).take (pos + (buf ++ before.flatten).length - sp.start))) :
    M.stream keep buf parts = (M.spansAt pos (s.drop pos)).map Span.value := by
  induction parts generalizing pos buf with
  | nil =>
    rw [hs, List.flatten_nil, List.append_nil, (free_iff pos buf).mp hbuf]
    rfl
  | cons part parts ih =>
    rw [List.flatten_cons, ← List.append_assoc] at hs
    obtain ⟨d, hd, hbuf', hfree, hspans⟩ := exists_keep (M := M) (t := buf ++ part)
      (r := parts.flatten) hkeep pos fun sp hsp hstart hstop => by
        have hhead := h [part] parts rfl sp (by rwa [hs])
        rw [List.flatten_singleton] at hhead
        rw [← take_drop_eq hs (of_mem_spansAt hsp).1 hstart.le]
        exact hhead hstart hstop
    -- where the search of the buffer begins is of no account
    have hvalues : (M.spansAt pos (buf ++ part)).map Span.value =
        (M.spans (buf ++ part)).map Span.value := by
      rw [spansAt_eq, List.map_map]
      rfl
    have hend : endOf pos (M.spansAt pos (buf ++ part)) - pos =
        endOf 0 (M.spans (buf ++ part)) := by
      rw [spansAt_eq]
      have hshift := endOf_shift pos 0 (M.spans (buf ++ part))
      rw [Nat.add_zero] at hshift
      rw [hshift, Nat.add_sub_cancel_left]
    rw [hend] at hbuf'
    have hs' : s.drop (pos + d) = (buf ++ part).drop d ++ parts.flatten := by
      rw [← List.drop_drop, hs, List.drop_append_of_le_length hd]
    rw [stream, hs, hspans, List.map_append, hvalues, hbuf', ← hs', ih _ hs' hfree]
    intro before after hparts sp hsp hstart hstop
    have hpos : pos + d + ((buf ++ part).drop d ++ before.flatten).length =
        pos + (buf ++ (part :: before).flatten).length := by
      simp only [List.length_append, List.length_drop, List.flatten_cons] at hd ⊢
      omega
    rw [hpos] at hstart hstop ⊢
    refine h (part :: before) after (by rw [hparts]; rfl) sp ?_ hstart hstop
    rw [hs, hspans, ← hs']
    exact List.mem_append_right _ hsp

end Matcher

end EmeraldExchange
