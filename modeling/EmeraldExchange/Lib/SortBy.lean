import Mathlib.Data.List.Sort

/-!
# Sorting with a comparator

A comparator answers how two values are ordered. A sort may rely on it only if its answers fit
together on the values that are sorted: that two of them are ordered oppositely when they are
exchanged, and that what goes before is passed on. Then the result is ordered, and what comes first
does not depend on how the values came in, but for ties (`tie_of_head`).
-/

namespace EmeraldExchange.SortBy

variable {α : Type*} (cmp : α → α → Ordering)

/-- `sort_by`, which is stable. -/
def sortBy (l : List α) : List α := l.insertionSort fun a b => cmp a b ≠ .gt

/-- **A comparator orders some values**: it is total, antisymmetric up to ties and transitive on
them. -/
structure Orders (l : List α) : Prop where
  swap : ∀ a ∈ l, ∀ b ∈ l, cmp a b = (cmp b a).swap
  trans : ∀ a ∈ l, ∀ b ∈ l, ∀ c ∈ l, cmp a b ≠ .gt → cmp b c ≠ .gt → cmp a c ≠ .gt

variable {cmp}

theorem Orders.mono {l l' : List α} (h : Orders cmp l) (hsub : l' ⊆ l) : Orders cmp l' where
  swap a ha b hb := h.swap a (hsub ha) b (hsub hb)
  trans a ha b hb c hc := h.trans a (hsub ha) b (hsub hb) c (hsub hc)

theorem Orders.self {l : List α} (h : Orders cmp l) {a : α} (ha : a ∈ l) : cmp a a = .eq := by
  have hswap := h.swap a ha a ha
  rcases hcmp : cmp a a with _ | _ | _
  · rw [hcmp] at hswap
    cases hswap
  · rfl
  · rw [hcmp] at hswap
    cases hswap

theorem Orders.total {l : List α} (h : Orders cmp l) {a b : α} (ha : a ∈ l) (hb : b ∈ l)
    (hgt : ¬ cmp a b ≠ .gt) : cmp b a ≠ .gt := by
  rw [h.swap b hb a ha, not_not.mp hgt]
  exact Ordering.noConfusion

theorem perm_sortBy (l : List α) : (sortBy cmp l).Perm l := List.perm_insertionSort _ l

theorem pairwise_orderedInsert {a : α} : ∀ {l : List α}, Orders cmp (a :: l) →
    l.Pairwise (fun b c => cmp b c ≠ .gt) →
    (l.orderedInsert (fun b c => cmp b c ≠ .gt) a).Pairwise fun b c => cmp b c ≠ .gt
  | [], _, _ => List.pairwise_singleton _ a
  | b :: l, h, hl => by
    obtain ⟨hb, hrest⟩ := List.pairwise_cons.mp hl
    have ha : a ∈ a :: b :: l := List.mem_cons_self
    have hbmem : b ∈ a :: b :: l := List.mem_cons_of_mem a List.mem_cons_self
    have hsub : ∀ c ∈ l, c ∈ a :: b :: l := fun c hc =>
      List.mem_cons_of_mem a (List.mem_cons_of_mem b hc)
    rw [List.orderedInsert_cons]
    split
    · next hle =>
      refine List.pairwise_cons.mpr ⟨fun c hc => ?_, hl⟩
      rcases List.mem_cons.mp hc with rfl | hc
      · exact hle
      · exact h.trans a ha b hbmem c (hsub c hc) hle (hb c hc)
    · next hgt =>
      have hinsert := pairwise_orderedInsert (h.mono (List.cons_subset_cons a
        (List.subset_cons_self b l))) hrest
      refine List.pairwise_cons.mpr ⟨fun c hc => ?_, hinsert⟩
      rcases List.mem_cons.mp ((List.perm_orderedInsert _ a l).mem_iff.mp hc) with rfl | hc
      · exact h.total ha hbmem hgt
      · exact hb c hc

/-- **What is sorted is ordered.** -/
theorem pairwise_sortBy : ∀ {l : List α}, Orders cmp l →
    (sortBy cmp l).Pairwise fun a b => cmp a b ≠ .gt
  | [], _ => List.Pairwise.nil
  | a :: l, h => by
    have ih := pairwise_sortBy (h.mono (List.subset_cons_self a l))
    refine pairwise_orderedInsert (h.mono ?_) ih
    exact List.cons_subset_cons a (perm_sortBy l).subset

theorem head_sortBy {l : List α} (h : Orders cmp l) {a b : α}
    (ha : (sortBy cmp l).head? = some a) (hb : b ∈ l) : a ∈ l ∧ cmp a b ≠ .gt := by
  obtain ⟨rest, hsorted⟩ : ∃ rest, sortBy cmp l = a :: rest := List.head?_eq_some_iff.mp ha
  have hpairwise := pairwise_sortBy h
  have hperm : (sortBy cmp l).Perm l := perm_sortBy l
  rw [hsorted] at hpairwise hperm
  have hmem : a ∈ l := hperm.mem_iff.mp List.mem_cons_self
  refine ⟨hmem, ?_⟩
  rcases List.mem_cons.mp (hperm.mem_iff.mpr hb) with rfl | hb
  · rw [h.self hmem]
    exact Ordering.noConfusion
  · exact (List.pairwise_cons.mp hpairwise).1 b hb

/-- **What comes first is the same, but for ties**, in whatever order the values came in. -/
theorem tie_of_head {l l' : List α} (h : Orders cmp l) (hperm : l'.Perm l) {a b : α}
    (ha : (sortBy cmp l).head? = some a) (hb : (sortBy cmp l').head? = some b) :
    cmp a b = .eq := by
  have hmem : b ∈ l' := by
    obtain ⟨rest, hsorted⟩ := List.head?_eq_some_iff.mp hb
    exact (perm_sortBy l').mem_iff.mp (hsorted ▸ List.mem_cons_self)
  obtain ⟨hal, hab⟩ := head_sortBy h ha (hperm.mem_iff.mp hmem)
  obtain ⟨-, hba⟩ := head_sortBy (h.mono hperm.subset) hb (hperm.mem_iff.mpr hal)
  rw [h.swap b (hperm.mem_iff.mp hmem) a hal] at hba
  rcases hcmp : cmp a b with _ | _ | _
  · rw [hcmp] at hba
    exact absurd rfl hba
  · rfl
  · exact absurd hcmp hab

end EmeraldExchange.SortBy
