import Mathlib.Data.List.Induction
import Mathlib.Data.List.Nodup

/-!
# Repetitions among the first results

A list of rows is turned into results, row by row, and the first of them are kept. They have a key
twice exactly when some row repeats the key of a row before it, while there is still room
(`nodup_take_iff`). So whether results are distinct can be told from the rows.
-/

namespace EmeraldExchange

variable {ρ α κ : Type*} {g : ρ → Option α} {key : α → κ} {n : ℕ}

/-- **A row repeats a key** of the rows before it, which have not filled the room for `n`. -/
def Repeats (g : ρ → Option α) (key : α → κ) (n : ℕ) (rows : List ρ) : Prop :=
  ∃ before row after a, rows = before ++ row :: after ∧ g row = some a ∧
    (before.filterMap g).length < n ∧ key a ∈ (before.filterMap g).map key

theorem not_repeats_nil : ¬ Repeats g key n [] := by
  rintro ⟨before, row, after, a, heq, -⟩
  exact absurd heq.symm (List.append_ne_nil_of_right_ne_nil _ (List.cons_ne_nil _ _))

theorem repeats_concat {rows : List ρ} {last : ρ} : Repeats g key n (rows ++ [last]) ↔
    Repeats g key n rows ∨ ∃ a, g last = some a ∧ (rows.filterMap g).length < n ∧
      key a ∈ (rows.filterMap g).map key := by
  constructor
  · rintro ⟨before, row, after, a, heq, hrow, hroom, hkey⟩
    rcases List.eq_nil_or_concat after with rfl | ⟨after, x, rfl⟩
    · obtain ⟨rfl, hlast⟩ := List.append_inj' heq rfl
      obtain rfl := List.head_eq_of_cons_eq hlast
      exact .inr ⟨a, hrow, hroom, hkey⟩
    · rw [List.concat_eq_append, ← List.cons_append, ← List.append_assoc] at heq
      obtain ⟨rfl, -⟩ := List.append_inj' heq rfl
      exact .inl ⟨before, row, after, a, rfl, hrow, hroom, hkey⟩
  · rintro (⟨before, row, after, a, rfl, hrest⟩ | ⟨a, hrest⟩)
    · exact ⟨before, row, after ++ [last], a, by simp, hrest⟩
    · exact ⟨rows, last, [], a, rfl, hrest⟩

/-- **The first results have no key twice exactly when no row repeats one.** -/
theorem nodup_take_iff {rows : List ρ} :
    (((rows.filterMap g).take n).map key).Nodup ↔ ¬ Repeats g key n rows := by
  induction rows using List.reverseRecOn with
  | nil => exact iff_of_true (by simp) not_repeats_nil
  | append_singleton rows last ih =>
    rw [repeats_concat, not_or, ← ih, List.filterMap_append]
    rcases Nat.lt_or_ge (rows.filterMap g).length n with hroom | hfull
    · -- the last result is kept
      have htake : (rows.filterMap g).take n = rows.filterMap g :=
        List.take_of_length_le (Nat.le_of_lt hroom)
      rcases hlast : g last with _ | a
      · rw [show [last].filterMap g = [] by simp [hlast], List.append_nil]
        simp
      · have hall : (rows.filterMap g ++ [a]).length ≤ n := by
          rw [List.length_append]
          exact hroom
        rw [show [last].filterMap g = [a] by simp [hlast], htake, List.take_of_length_le hall,
          List.map_append, List.nodup_append]
        constructor
        · rintro ⟨hnodup, -, hdisjoint⟩
          refine ⟨hnodup, ?_⟩
          rintro ⟨b, hb, -, hkey⟩
          obtain rfl := Option.some.inj hb
          exact hdisjoint _ hkey _ (by simp) rfl
        · rintro ⟨hnodup, hnew⟩
          refine ⟨hnodup, List.nodup_singleton _, ?_⟩
          rintro k hk k' hk' rfl
          obtain rfl := List.mem_singleton.mp hk'
          exact hnew ⟨a, rfl, hroom, hk⟩
    · -- there is no room for it
      rw [List.take_append_of_le_length hfull]
      refine ⟨fun h => ⟨h, ?_⟩, fun h => h.1⟩
      rintro ⟨a, -, hroom, -⟩
      omega

end EmeraldExchange
