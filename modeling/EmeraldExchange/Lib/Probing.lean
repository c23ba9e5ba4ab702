import Mathlib.Data.Finset.Card
import Mathlib.Data.Finset.Range
import Mathlib.Data.Nat.ModEq
import Mathlib.Logic.Function.Basic

/-!
# Open addressing

A table of slots in a circle, in which a key is looked for from its home on, slot by slot, up to
the first that is free. A search ends if a free slot is left
(`Holds.exists_search`). The table keeps that between the home of a key and
its slot none is free (`Holds`); so a search that ends at a free slot has
looked everywhere (`Holds.not_mem`). Keys are only added.
-/

namespace EmeraldExchange.Probing

variable {κ : Type*}

/-! ### Searching -/

/-- **Go on from a slot until one fits**, for so many slots at most; none if none of these does. -/
def search (slots : ℕ) (fits : ℕ → Bool) : ℕ → ℕ → Option ℕ
  | 0, _ => none
  | n + 1, loc => if fits loc then some loc else search slots fits n ((loc + 1) % slots)

def further (slots loc i : ℕ) : ℕ := (loc + i) % slots

theorem further_zero {slots loc : ℕ} (h : loc < slots) : further slots loc 0 = loc :=
  Nat.mod_eq_of_lt h

theorem further_succ (slots loc i : ℕ) :
    further slots ((loc + 1) % slots) i = further slots loc (i + 1) := by
  rw [further, further, Nat.mod_add_mod, Nat.add_assoc, Nat.add_comm 1]

theorem exists_further {slots loc l : ℕ} (hloc : loc < slots) (hl : l < slots) :
    ∃ i < slots, further slots loc i = l := by
  rcases Nat.lt_or_ge l loc with hlt | hge
  · refine ⟨slots - loc + l, by omega, ?_⟩
    rw [further, show loc + (slots - loc + l) = l + slots by omega, Nat.add_mod_right,
      Nat.mod_eq_of_lt hl]
  · exact ⟨l - loc, by omega, by rw [further, Nat.add_sub_cancel' hge, Nat.mod_eq_of_lt hl]⟩

/-- **A search finds the first slot that fits**, if one does. -/
theorem search_eq {slots : ℕ} {fits : ℕ → Bool} : ∀ {n loc : ℕ}, loc < slots →
    (∃ i < n, fits (further slots loc i) = true) →
    ∃ i < n, search slots fits n loc = some (further slots loc i) ∧
      fits (further slots loc i) = true ∧ ∀ j < i, fits (further slots loc j) = false
  | 0, _, _, h => by
    obtain ⟨i, hi, -⟩ := h
    exact absurd hi i.not_lt_zero
  | n + 1, loc, hloc, h => by
    rw [search]
    by_cases hfits : fits loc = true
    · refine ⟨0, n.succ_pos, ?_, ?_, fun j hj => absurd hj j.not_lt_zero⟩
      · rw [if_pos hfits, further_zero hloc]
      · rw [further_zero hloc, hfits]
    · rw [if_neg hfits]
      have hnext : ∃ i < n, fits (further slots ((loc + 1) % slots) i) = true := by
        obtain ⟨i, hi, hfit⟩ := h
        rcases i with _ | i
        · rw [further_zero hloc] at hfit
          exact absurd hfit hfits
        · exact ⟨i, by omega, by rw [further_succ, hfit]⟩
      obtain ⟨i, hi, hsearch, hfit, hbefore⟩ := search_eq
        (Nat.mod_lt (loc + 1) (Nat.zero_lt_of_lt hloc)) hnext
      refine ⟨i + 1, by omega, ?_, ?_, fun j hj => ?_⟩
      · rw [hsearch, further_succ]
      · rw [← further_succ, hfit]
      · rcases j with _ | j
        · rw [further_zero hloc]
          exact Bool.not_eq_true _ |>.mp hfits
        · rw [← further_succ]
          exact hbefore j (by omega)

/-! ### Tables -/

variable {slots : ℕ} {home : κ → ℕ} {table : ℕ → Option κ} {keys : List κ} {v : κ}

/-- Between the home of a key and a slot that is so many further none is free. -/
def Reaches (slots : ℕ) (home : κ → ℕ) (table : ℕ → Option κ) (v : κ) (i : ℕ) : Prop :=
  ∀ j < i, table (further slots (home v) j) ≠ none

/-- **The table holds some keys**, each where a search from its home finds it, and has as many free
slots as there are more slots than keys. -/
structure Holds (slots : ℕ) (home : κ → ℕ) (table : ℕ → Option κ) (keys : List κ) : Prop where
  mem : ∀ l v, table l = some v → v ∈ keys
  reached : ∀ v ∈ keys, ∃ i, table (further slots (home v) i) = some v ∧
    Reaches slots home table v i
  card : ((Finset.range slots).filter fun l => table l ≠ none).card ≤ keys.length

theorem holds_nil : Holds slots home (fun _ => none) [] where
  mem := by rintro l v ⟨⟩
  reached v h := absurd h List.not_mem_nil
  card := by simp

theorem Holds.exists_free (h : Holds slots home table keys) (hroom : keys.length < slots) :
    ∃ l < slots, table l = none := by
  by_contra hfull
  have hall : (Finset.range slots).filter (fun l => table l ≠ none) = Finset.range slots :=
    Finset.filter_true_of_mem fun l hl hnone => hfull ⟨l, Finset.mem_range.mp hl, hnone⟩
  have hcard := h.card
  rw [hall, Finset.card_range] at hcard
  omega

/-- **A search that takes a free slot ends.** -/
theorem Holds.exists_search (h : Holds slots home table keys) (hroom : keys.length < slots)
    (fits : ℕ → Bool) (hfree : ∀ l, table l = none → fits l = true) {loc : ℕ}
    (hloc : loc < slots) :
    ∃ i < slots, search slots fits slots loc = some (further slots loc i) ∧
      fits (further slots loc i) = true ∧ ∀ j < i, fits (further slots loc j) = false := by
  obtain ⟨l, hl, hnone⟩ := h.exists_free hroom
  obtain ⟨i, hi, rfl⟩ := exists_further hloc hl
  exact search_eq hloc ⟨i, hi, hfree _ hnone⟩

/-- **A search for a key that comes to a free slot first has not missed it.** -/
theorem Holds.not_mem (h : Holds slots home table keys) {i : ℕ}
    (hfree : table (further slots (home v) i) = none)
    (hbefore : ∀ j < i, table (further slots (home v) j) ≠ some v) : v ∉ keys := by
  intro hmem
  obtain ⟨k, hk, hreach⟩ := h.reached v hmem
  rcases Nat.lt_trichotomy i k with hlt | rfl | hlt
  · exact hreach i hlt hfree
  · rw [hk] at hfree
    cases hfree
  · exact hbefore k hlt hk

/-- **A key that is put into the first free slot from its home is held.** -/
theorem Holds.insert (h : Holds slots home table keys) {i : ℕ}
    (hfree : table (further slots (home v) i) = none) (hreach : Reaches slots home table v i) :
    Holds slots home (Function.update table (further slots (home v) i) (some v))
      (keys ++ [v]) := by
  set l := further slots (home v) i
  have hkeep : ∀ l', table l' ≠ none → Function.update table l (some v) l' = table l' := by
    intro l' hne
    refine Function.update_of_ne ?_ ..
    rintro rfl
    exact hne hfree
  constructor
  · intro l' w hw
    rcases eq_or_ne l' l with rfl | hne
    · rw [Function.update_self] at hw
      obtain rfl := Option.some.inj hw
      exact List.mem_append_right _ List.mem_cons_self
    · rw [Function.update_of_ne hne] at hw
      exact List.mem_append_left _ (h.mem l' w hw)
  · intro w hw
    rcases List.mem_append.mp hw with hw | hw
    · obtain ⟨k, hk, hkreach⟩ := h.reached w hw
      refine ⟨k, ?_, fun j hj => ?_⟩
      · rw [hkeep _ (by rw [hk]; simp), hk]
      · rw [hkeep _ (hkreach j hj)]
        exact hkreach j hj
    · obtain rfl := List.mem_singleton.mp hw
      refine ⟨i, Function.update_self .., fun j hj => ?_⟩
      rw [hkeep _ (hreach j hj)]
      exact hreach j hj
  · have hsub : (Finset.range slots).filter
        (fun l' => Function.update table l (some v) l' ≠ none) ⊆
          Insert.insert l ((Finset.range slots).filter fun l' => table l' ≠ none) := by
      intro l' hl'
      obtain ⟨hrange, hne⟩ := Finset.mem_filter.mp hl'
      rw [Finset.mem_insert, Finset.mem_filter]
      rcases eq_or_ne l' l with rfl | hother
      · exact .inl rfl
      · rw [Function.update_of_ne hother] at hne
        exact .inr ⟨hrange, hne⟩
    refine (Finset.card_le_card hsub).trans ((Finset.card_insert_le ..).trans ?_)
    rw [List.length_append, List.length_singleton]
    exact Nat.add_le_add_right h.card 1

end EmeraldExchange.Probing
