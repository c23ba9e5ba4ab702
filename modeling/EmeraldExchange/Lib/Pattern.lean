import EmeraldExchange.Lib.Matcher

/-!
# Patterns

Regular expressions that are one item after another: a character of a class, a word boundary,
or a repetition of a class, greedy or lazy, which may be a group. They are matched the first
way that succeeds, in the order of preference of the repetitions, as `regex` and Perl match
them.

A match may change when more text follows: a greedy repetition that had to give way may then
take more. It is a `Matcher` all the same, if behind each word boundary
something is taken (`matcher`).
-/

namespace EmeraldExchange.Pattern

variable {α : Type*}

inductive Item (α : Type*)
  /-- One character of a class. -/
  | one (p : α → Bool)
  /-- A word boundary. -/
  | boundary
  /-- Characters of a class, at least one if `least`; more rather than fewer if `greedy`; a group
  if `group`. -/
  | many (p : α → Bool) (least greedy group : Bool)

def literal [DecidableEq α] (s : List α) : List (Item α) := s.map fun c => .one fun d => d = c

/-- Take characters of a class, and go on with `k`, which is told what was taken and the character
before. -/
def take {β : Type*} (p : α → Bool) (least greedy : Bool)
    (k : List α → Option α → List α → Option (β × List α)) :
    List α → Option α → List α → Option (β × List α)
  | taken, prev, [] => if least && taken.isEmpty then none else k taken prev []
  | taken, prev, c :: s =>
    let stop := if least && taken.isEmpty then none else k taken prev (c :: s)
    let more := if p c then take p least greedy k (taken ++ [c]) (some c) s else none
    if greedy then more.or stop else stop.or more

/-- **Match a pattern** at the head of a text, with the character before it: the groups, and what
is left. `word` are the characters of words. -/
def matchAt (word : α → Bool) :
    List (Item α) → Option α → List α → Option (List (List α) × List α)
  | [], _, s => some ([], s)
  | .one _ :: _, _, [] => none
  | .one p :: items, _, c :: s => if p c then matchAt word items (some c) s else none
  | .boundary :: items, prev, s =>
    if prev.any word != s.head?.any word then matchAt word items prev s else none
  | .many p least greedy group :: items, prev, s =>
    take p least greedy (fun taken prev s => (matchAt word items prev s).map fun r =>
      (if group then taken :: r.1 else r.1, r.2)) [] prev s

def Item.takes : Item α → Bool
  | .one _ => true
  | .boundary => false
  | .many _ least _ _ => least

/-- Behind each boundary something is taken, so that none is looked for at the end of the
text. -/
def guarded : List (Item α) → Bool
  | [] => true
  | .boundary :: items => items.any Item.takes && guarded items
  | _ :: items => guarded items

variable {β : Type*} {p : α → Bool} {least greedy : Bool}
  {k : List α → Option α → List α → Option (β × List α)} {word : α → Bool}

theorem take_nil (taken : List α) (prev : Option α) : take p least greedy k taken prev [] =
    if least && taken.isEmpty then none else k taken prev [] := rfl

theorem take_cons (taken : List α) (prev : Option α) (c : α) (s : List α) :
    take p least greedy k taken prev (c :: s) =
      if greedy then
        (if p c then take p least greedy k (taken ++ [c]) (some c) s else none).or
          (if least && taken.isEmpty then none else k taken prev (c :: s))
      else
        (if least && taken.isEmpty then none else k taken prev (c :: s)).or
          (if p c then take p least greedy k (taken ++ [c]) (some c) s else none) := rfl

theorem matchAt_one_cons (items : List (Item α)) (prev : Option α) (c : α) (s : List α) :
    matchAt word (.one p :: items) prev (c :: s) =
      if p c then matchAt word items (some c) s else none := rfl

theorem matchAt_boundary (items : List (Item α)) (prev : Option α) (s : List α) :
    matchAt word (.boundary :: items) prev s =
      if prev.any word != s.head?.any word then matchAt word items prev s else none := rfl

theorem matchAt_many (group : Bool) (items : List (Item α)) (prev : Option α) (s : List α) :
    matchAt word (.many p least greedy group :: items) prev s =
      take p least greedy (fun taken prev s => (matchAt word items prev s).map fun r =>
        (if group then taken :: r.1 else r.1, r.2)) [] prev s := rfl

theorem suffix_take (hk : ∀ taken prev s r, k taken prev s = some r → r.2 <:+ s) {taken : List α}
    {prev : Option α} {s : List α} {r : β × List α}
    (h : take p least greedy k taken prev s = some r) : r.2 <:+ s := by
  induction s generalizing taken prev with
  | nil =>
    rw [take_nil] at h
    split at h
    · cases h
    · exact hk _ _ _ _ h
  | cons c s ih =>
    have hstop : (if least && taken.isEmpty then none else k taken prev (c :: s)) = some r →
        r.2 <:+ c :: s := by
      intro h
      split at h
      · cases h
      · exact hk _ _ _ _ h
    have hmore : (if p c then take p least greedy k (taken ++ [c]) (some c) s else none) =
        .some r → r.2 <:+ c :: s := by
      intro h
      split at h
      · exact (ih h).trans (List.suffix_cons c s)
      · cases h
    rw [take_cons] at h
    split at h
    · exact (Option.or_eq_some_iff.mp h).elim hmore fun h => hstop h.2
    · exact (Option.or_eq_some_iff.mp h).elim hstop fun h => hmore h.2

theorem suffix_matchAt {items : List (Item α)} {prev : Option α} {s : List α}
    {r : List (List α) × List α} (h : matchAt word items prev s = some r) : r.2 <:+ s := by
  induction items generalizing prev s r with
  | nil =>
    obtain rfl := Option.some.inj h
    exact List.suffix_refl s
  | cons item items ih =>
    cases item with
    | one p =>
      cases s with
      | nil => cases h
      | cons c s =>
        rw [matchAt_one_cons] at h
        split at h
        · exact (ih h).trans (List.suffix_cons c s)
        · cases h
    | boundary =>
      rw [matchAt_boundary] at h
      split at h
      · exact ih h
      · cases h
    | many p least greedy group =>
      rw [matchAt_many] at h
      refine suffix_take (fun taken prev s r hr => ?_) h
      obtain ⟨r', hr', rfl⟩ := Option.map_eq_some_iff.mp hr
      have hsuffix := ih hr'
      exact hsuffix

theorem literal_prefix [DecidableEq α] {l : List α} {items : List (Item α)} {prev : Option α}
    {s : List α} {r : List (List α) × List α}
    (h : matchAt word (literal l ++ items) prev s = some r) : l <+: s := by
  induction l generalizing prev s with
  | nil => exact List.nil_prefix
  | cons c l ih =>
    cases s with
    | nil => cases h
    | cons d s =>
      rw [literal, List.map_cons, List.cons_append, matchAt_one_cons] at h
      split at h
      · next hd =>
        obtain rfl := of_decide_eq_true hd
        exact List.cons_prefix_cons.mpr ⟨rfl, ih h⟩
      · cases h

theorem length_lt_of_take (hk : ∀ taken prev s r, k taken prev s = some r → r.2 <:+ s)
    {taken : List α} {prev : Option α} {s : List α} {r : β × List α}
    (htakes : (least && taken.isEmpty) = true ∨
      ∀ taken prev s r, k taken prev s = some r → r.2.length < s.length)
    (h : take p least greedy k taken prev s = some r) : r.2.length < s.length := by
  have hstop : ∀ s, (if least && taken.isEmpty then none else k taken prev s) = some r →
      r.2.length < s.length := by
    intro s h
    split at h
    · cases h
    · next hnot => exact htakes.resolve_left hnot _ _ _ _ h
  cases s with
  | nil => exact hstop [] h
  | cons c s =>
    have hmore : (if p c then take p least greedy k (taken ++ [c]) (some c) s else none) =
        some r → r.2.length < (c :: s).length := by
      intro h
      split at h
      · exact Nat.lt_succ_of_le (suffix_take hk h).length_le
      · cases h
    rw [take_cons] at h
    split at h
    · exact (Option.or_eq_some_iff.mp h).elim hmore fun h => hstop _ h.2
    · exact (Option.or_eq_some_iff.mp h).elim (hstop _) fun h => hmore h.2

theorem length_lt_of_matchAt {items : List (Item α)} (htakes : items.any Item.takes = true)
    {prev : Option α} {s : List α} {r : List (List α) × List α}
    (h : matchAt word items prev s = some r) : r.2.length < s.length := by
  induction items generalizing prev s r with
  | nil => cases htakes
  | cons item items ih =>
    cases item with
    | one p =>
      cases s with
      | nil => cases h
      | cons c s =>
        rw [matchAt_one_cons] at h
        split at h
        · exact Nat.lt_succ_of_le (suffix_matchAt h).length_le
        · cases h
    | boundary =>
      rw [matchAt_boundary] at h
      split at h
      · exact ih htakes h
      · cases h
    | many p least greedy group =>
      rw [matchAt_many] at h
      refine length_lt_of_take (fun taken prev s r hr => ?_) ?_ h
      · obtain ⟨r', hr', rfl⟩ := Option.map_eq_some_iff.mp hr
        have hsuffix := suffix_matchAt hr'
        exact hsuffix
      · cases least with
        | true => exact Or.inl rfl
        | false =>
          refine Or.inr fun taken prev s r hr => ?_
          obtain ⟨r', hr', rfl⟩ := Option.map_eq_some_iff.mp hr
          have hlt := ih htakes hr'
          exact hlt

variable {t : List α}

theorem cut_take (hk : ∀ taken prev s r, k taken prev s = some r → r.2 <:+ s)
    (hcut : ∀ taken prev s, Cut t (k taken prev (s ++ t)) (k taken prev s)) (taken : List α)
    (prev : Option α) (s : List α) :
    Cut t (take p least greedy k taken prev (s ++ t)) (take p least greedy k taken prev s) := by
  have hstop : ∀ taken prev s, Cut t
      (if least && taken.isEmpty then none else k taken prev (s ++ t))
      (if least && taken.isEmpty then none else k taken prev s) := by
    intro taken prev s
    split
    · exact .none
    · exact hcut taken prev s
  induction s generalizing taken prev with
  | nil =>
    cases ht : t with
    | nil =>
      have hsame := hstop taken prev []
      rw [ht] at hsame
      exact hsame
    | cons c t' =>
      -- beyond the end of the text only more can be taken
      have hlong : ∀ r, (if p c then take p least greedy k (taken ++ [c]) (some c) t' else none) =
          some r → r.2.length < (c :: t').length := by
        intro r h
        split at h
        · exact Nat.lt_succ_of_le (suffix_take hk h).length_le
        · cases h
      have hboth := (ht ▸ hstop taken prev []).or_long hlong
      rw [List.nil_append, take_nil, take_cons]
      split
      · exact hboth.1
      · exact hboth.2
  | cons c s ih =>
    have hmore : Cut t
        (if p c then take p least greedy k (taken ++ [c]) (some c) (s ++ t) else none)
        (if p c then take p least greedy k (taken ++ [c]) (some c) s else none) := by
      split
      · exact ih _ _
      · exact .none
    rw [List.cons_append, take_cons, take_cons]
    split
    · exact hmore.or (hstop taken prev (c :: s))
    · exact (hstop taken prev (c :: s)).or hmore

/-- **What a pattern matches in a text and in its head.** -/
theorem cut_matchAt {items : List (Item α)} (hguarded : guarded items = true) (prev : Option α)
    (s : List α) : Cut t (matchAt word items prev (s ++ t)) (matchAt word items prev s) := by
  induction items generalizing prev s with
  | nil =>
    refine ⟨fun _ => rfl, fun x rest h => ?_⟩
    obtain ⟨rfl, hs⟩ := Prod.mk.inj (Option.some.inj h)
    exact congrArg (fun s => some ([], s)) (List.append_cancel_right hs)
  | cons item items ih =>
    cases item with
    | one p =>
      cases s with
      | nil => exact .of_long fun r h => length_lt_of_matchAt rfl h
      | cons c s =>
        rw [List.cons_append, matchAt_one_cons, matchAt_one_cons]
        split
        · exact ih hguarded _ _
        · exact .none
    | boundary =>
      rw [guarded, Bool.and_eq_true] at hguarded
      have htakes : (Item.boundary :: items).any Item.takes = true := hguarded.1
      cases s with
      | nil =>
        have hnil : matchAt word (.boundary :: items) prev [] = none := by
          refine Option.eq_none_iff_forall_ne_some.mpr fun r h => ?_
          have hlt := length_lt_of_matchAt htakes h
          cases hlt
        rw [hnil]
        exact .of_long fun r h => length_lt_of_matchAt htakes h
      | cons c s =>
        have hhead : (c :: s ++ t).head? = (c :: s).head? := rfl
        rw [matchAt_boundary, matchAt_boundary, hhead]
        split
        · exact ih hguarded.2 _ (c :: s)
        · exact .none
    | many p least greedy group =>
      rw [matchAt_many, matchAt_many]
      refine cut_take (fun taken prev s r hr => ?_) (fun taken prev s => ?_) _ _ _
      · obtain ⟨r', hr', rfl⟩ := Option.map_eq_some_iff.mp hr
        have hsuffix := suffix_matchAt hr'
        exact hsuffix
      · exact (ih hguarded prev s).map fun groups => if group then taken :: groups else groups

/-- **The matcher of a pattern.** -/
def matcher (word : α → Bool) (items : List (Item α)) (hguarded : guarded items = true)
    (htakes : items.any Item.takes = true) : Matcher α (List (List α)) where
  next := matchAt word items none
  suffix := fun _ _ => suffix_matchAt
  shorter := fun _ _ => length_lt_of_matchAt htakes
  cut := fun s _ => cut_matchAt hguarded none s

end EmeraldExchange.Pattern
