import EmeraldExchange.Lib.Regex

/-!
# What an expression takes

Some properties of regular expressions can be read off how they are written: what their matches
begin with (`Begins`), that a match is not empty
(`Takes`), what it ends with (`EndsIn`), and that
nothing is looked at that is not taken (`Blind`). The last is what makes a
match a match in a longer text (`run_more`).
-/

namespace EmeraldExchange.Regex

variable {α : Type*} {p : α → Bool} {r s : Regex α} {q q' : Pos α}

/-! ### The first character -/

/-- **Each match begins with a character of a class.** -/
def Begins (p : α → Bool) : Regex α → Prop
  | .one f => ∀ c, f c = true → p c = true
  | .cat r _ => Begins p r
  | .alt r s => Begins p r ∧ Begins p s
  | .group _ r => Begins p r
  | .eps | .many _ | .boundary _ | .start | .stop => False

theorem Begins.of_mem_run (h : Begins p r) (hq : q' ∈ run r q) :
    ∃ c t, q.rest = c :: t ∧ p c = true := by
  induction r generalizing q q' with
  | one f =>
    obtain ⟨c, t, hrest, hc, -⟩ := mem_run_one.mp hq
    exact ⟨c, t, hrest, h c hc⟩
  | cat r s ihr _ =>
    obtain ⟨q₁, hq₁, -⟩ := mem_run_cat.mp hq
    exact ihr h hq₁
  | alt r s ihr ihs =>
    rcases List.mem_append.mp hq with hq | hq
    · exact ihr h.1 hq
    · exact ihs h.2 hq
  | group n r ih =>
    obtain ⟨q₁, hq₁, -⟩ := mem_run_group.mp hq
    exact ih h hq₁
  | eps | many | boundary | start | stop => exact h.elim

theorem Begins.of_matchAt {prev : Option α} {t : List α} (h : Begins p r)
    (hq : matchAt r prev t = some q) : ∃ c z, t = c :: z ∧ p c = true :=
  h.of_mem_run (List.mem_of_head? hq)

theorem begins_oneOf : ∀ {rs : List (Regex α)}, (∀ r ∈ rs, Begins p r) → Begins p (oneOf rs)
  | [], _ => fun _ h => absurd h Bool.false_ne_true
  | [r], h => h r List.mem_cons_self
  | r :: _ :: _, h => ⟨h r List.mem_cons_self,
      begins_oneOf fun x hx => h x (List.mem_cons_of_mem r hx)⟩

theorem begins_wordBy [DecidableEq α] {fold : α → α} {a : α} {w : List α}
    (h : ∀ c, fold c = a → p c = true) : Begins p (wordBy fold (a :: w)) :=
  fun c hc => h c (of_decide_eq_true hc)

/-! ### The last character -/

/-- **No match is empty.** -/
def Takes : Regex α → Prop
  | .one _ => True
  | .cat r s => Takes r ∨ Takes s
  | .alt r s => Takes r ∧ Takes s
  | .group _ r => Takes r
  | .eps | .many _ | .boundary _ | .start | .stop => False

/-- **Each match that is not empty ends with a character of a class.** -/
def EndsIn (p : α → Bool) : Regex α → Prop
  | .one f => ∀ c, f c = true → p c = true
  | .many f => ∀ c, f c = true → p c = true
  | .cat r s => EndsIn p s ∧ (EndsIn p r ∨ Takes s)
  | .alt r s => EndsIn p r ∧ EndsIn p s
  | .group _ r => EndsIn p r
  | .eps | .boundary _ | .start | .stop => True

theorem Takes.length_lt (h : Takes r) (hq : q' ∈ run r q) : q'.rest.length < q.rest.length := by
  induction r generalizing q q' with
  | one f =>
    obtain ⟨c, t, hrest, -, rfl⟩ := mem_run_one.mp hq
    rw [hrest]
    exact Nat.lt_succ_self _
  | cat r s ihr ihs =>
    obtain ⟨q₁, hq₁, hq₂⟩ := mem_run_cat.mp hq
    have h₁ := (suffix_of_mem_run hq₁).length_le
    have h₂ := (suffix_of_mem_run hq₂).length_le
    rcases h with h | h
    · exact lt_of_le_of_lt h₂ (ihr h hq₁)
    · exact lt_of_lt_of_le (ihs h hq₂) h₁
  | alt r s ihr ihs =>
    rcases List.mem_append.mp hq with hq | hq
    · exact ihr h.1 hq
    · exact ihs h.2 hq
  | group n r ih =>
    obtain ⟨q₁, hq₁, rfl⟩ := mem_run_group.mp hq
    have hlt := ih h hq₁
    exact hlt
  | eps | many | boundary | start | stop => exact h.elim

theorem EndsIn.of_mem_run (h : EndsIn p r) (hq : q' ∈ run r q) :
    (q'.prev = q.prev ∧ q'.rest = q.rest) ∨ q'.prev.any p = true := by
  induction r generalizing q q' with
  | one f =>
    obtain ⟨c, t, -, hc, rfl⟩ := mem_run_one.mp hq
    exact Or.inr (h c hc)
  | many f =>
    obtain ⟨a, ha, hrest, hprev, -⟩ := mem_runMany.mp hq
    rcases a.eq_nil_or_concat with rfl | ⟨b, c, rfl⟩
    · exact Or.inl ⟨hprev, hrest.symm⟩
    · refine Or.inr ?_
      rw [hprev, List.concat_eq_append, lastOr_append, lastOr_cons, lastOr_nil]
      exact h c (ha c (by simp))
  | cat r s ihr ihs =>
    obtain ⟨q₁, hq₁, hq₂⟩ := mem_run_cat.mp hq
    rcases ihs h.1 hq₂ with ⟨hprev, hrest⟩ | hprev
    · rcases h.2 with h | htakes
      · rw [hprev, hrest]
        exact ihr h hq₁
      · exact absurd (htakes.length_lt hq₂) (by rw [hrest]; exact lt_irrefl _)
    · exact Or.inr hprev
  | alt r s ihr ihs =>
    rcases List.mem_append.mp hq with hq | hq
    · exact ihr h.1 hq
    · exact ihs h.2 hq
  | group n r ih =>
    obtain ⟨q₁, hq₁, rfl⟩ := mem_run_group.mp hq
    have hends := ih h hq₁
    exact hends
  | eps =>
    obtain rfl := List.mem_singleton.mp hq
    exact Or.inl ⟨rfl, rfl⟩
  | boundary word =>
    obtain ⟨rfl, -⟩ := mem_run_boundary.mp hq
    exact Or.inl ⟨rfl, rfl⟩
  | start =>
    obtain ⟨-, rfl⟩ := List.mem_ite_nil_right.mp hq |>.imp_right List.mem_singleton.mp
    exact Or.inl ⟨rfl, rfl⟩
  | stop =>
    obtain ⟨-, rfl⟩ := List.mem_ite_nil_right.mp hq |>.imp_right List.mem_singleton.mp
    exact Or.inl ⟨rfl, rfl⟩

theorem takes_wordBy [DecidableEq α] {fold : α → α} {w : List α} (h : w ≠ []) :
    Takes (wordBy fold w) := by
  obtain ⟨a, w, rfl⟩ := List.exists_cons_of_ne_nil h
  exact Or.inl trivial

theorem endsIn_wordBy [DecidableEq α] {fold : α → α} : ∀ {w : List α},
    (∀ a ∈ w, ∀ c, fold c = a → p c = true) → EndsIn p (wordBy fold w)
  | [], _ => trivial
  | a :: _, h => ⟨endsIn_wordBy fun b hb => h b (List.mem_cons_of_mem a hb),
      Or.inl fun c hc => h a List.mem_cons_self c (of_decide_eq_true hc)⟩

/-! ### In a longer text -/

/-- **Only what is taken is looked at.** -/
def Blind : Regex α → Prop
  | .cat r s => Blind r ∧ Blind s
  | .alt r s => Blind r ∧ Blind s
  | .group _ r => Blind r
  | .boundary _ | .stop => False
  | .eps | .one _ | .many _ | .start => True

def Pos.more (t : List α) (q : Pos α) : Pos α := { q with rest := q.rest ++ t }

/-- **A match is a match in a longer text too.** -/
theorem run_more (t : List α) (h : Blind r) (hq : q' ∈ run r q) : q'.more t ∈ run r (q.more t) := by
  induction r generalizing q q' with
  | eps =>
    obtain rfl := List.mem_singleton.mp hq
    exact List.mem_singleton_self _
  | one f =>
    obtain ⟨c, z, hrest, hc, rfl⟩ := mem_run_one.mp hq
    exact mem_run_one.mpr ⟨c, z ++ t, by rw [Pos.more, hrest]; rfl, hc, rfl⟩
  | many f =>
    obtain ⟨a, ha, hrest, hprev, hgroups⟩ := mem_runMany.mp hq
    refine mem_runMany.mpr ⟨a, ha, ?_, hprev, hgroups⟩
    show q.rest ++ t = a ++ (q'.rest ++ t)
    rw [hrest, List.append_assoc]
  | cat r s ihr ihs =>
    obtain ⟨q₁, hq₁, hq₂⟩ := mem_run_cat.mp hq
    exact mem_run_cat.mpr ⟨q₁.more t, ihr h.1 hq₁, ihs h.2 hq₂⟩
  | alt r s ihr ihs =>
    rcases List.mem_append.mp hq with hq | hq
    · exact List.mem_append_left _ (ihr h.1 hq)
    · exact List.mem_append_right _ (ihs h.2 hq)
  | group n r ih =>
    obtain ⟨q₁, hq₁, rfl⟩ := mem_run_group.mp hq
    refine mem_run_group.mpr ⟨q₁.more t, ih h hq₁, ?_⟩
    obtain ⟨a, ha⟩ := suffix_of_mem_run hq₁
    have hpassed : passed (q.rest ++ t) (q₁.rest ++ t) = passed q.rest q₁.rest := by
      rw [← ha, List.append_assoc, passed_append, passed_append]
    simp [Pos.more, hpassed]
  | start =>
    obtain ⟨hprev, rfl⟩ := List.mem_ite_nil_right.mp hq |>.imp_right List.mem_singleton.mp
    exact List.mem_ite_nil_right.mpr ⟨hprev, List.mem_singleton_self _⟩
  | boundary | stop => exact h.elim

theorem blind_wordBy [DecidableEq α] {fold : α → α} : ∀ w : List α, Blind (wordBy fold w)
  | [] => trivial
  | _ :: w => ⟨trivial, blind_wordBy w⟩

theorem mem_run_oneOf : ∀ {rs : List (Regex α)}, q' ∈ run (oneOf rs) q ↔ ∃ r ∈ rs, q' ∈ run r q
  | [] => by
    rw [oneOf, mem_run_one]
    simp
  | [r] => by simp [oneOf]
  | r :: r' :: rs => by
    rw [oneOf]
    · show q' ∈ run r q ++ run (oneOf (r' :: rs)) q ↔ _
      rw [List.mem_append, mem_run_oneOf, List.exists_mem_cons_iff (a := r)]
    · rintro ⟨⟩

end EmeraldExchange.Regex
