import Mathlib.Data.List.Nodup

/-!
# An update of rows under a unique key

An update goes over the rows of a table and gives some of them another value, one after the other;
the key of the table is unique after each of them, so it fails at the first row whose new key some
other row has at that time. That row may be one that the update has yet to come to. Where no row
that is updated has a key that another is given, the order does not matter: the update goes through
exactly when the keys of all new rows differ (`updateFrom_eq_some`).
-/

namespace EmeraldExchange.KeyedRows

variable {ρ κ : Type*} [DecidableEq κ]

/-- The rows that are left are updated, after those that have been. -/
def updateFrom (key : ρ → κ) (p : ρ → Bool) (f : ρ → Option ρ) (done : List ρ) :
    List ρ → Option (List ρ)
  | [] => some done
  | r :: rows =>
    if p r then
      match f r with
      | none => none
      | some r' =>
        -- the key is checked against the table as it is now
        if (done ++ rows).any fun s => key s = key r' then none
        else updateFrom key p f (done ++ [r']) rows
    else updateFrom key p f (done ++ [r]) rows

/-- **The rows that `p` picks are updated**, one after the other. -/
def update (key : ρ → κ) (p : ρ → Bool) (f : ρ → Option ρ) (rows : List ρ) : Option (List ρ) :=
  updateFrom key p f [] rows

variable {key : ρ → κ} {p : ρ → Bool} {f : ρ → Option ρ} {g : ρ → ρ} {done rows out : List ρ}
  {r : ρ}

omit [DecidableEq κ] in
theorem nodup_insert (h : ((done ++ rows).map key).Nodup)
    (hr : ∀ s ∈ done ++ rows, key s ≠ key r) : ((done ++ [r] ++ rows).map key).Nodup := by
  rw [List.append_assoc, List.singleton_append, List.map_append, List.map_cons,
    List.nodup_middle, List.nodup_cons, ← List.map_append]
  refine ⟨fun hmem => ?_, h⟩
  obtain ⟨s, hs, hkey⟩ := List.mem_map.mp hmem
  exact hr s hs hkey

omit [DecidableEq κ] in
theorem key_ne_of_nodup (h : ((done ++ r :: rows).map key).Nodup) :
    ((done ++ rows).map key).Nodup ∧ ∀ s ∈ done ++ rows, key s ≠ key r := by
  rw [List.map_append, List.map_cons, List.nodup_middle, List.nodup_cons, ← List.map_append] at h
  exact ⟨h.2, fun s hs hkey => h.1 (List.mem_map.mpr ⟨s, hs, hkey⟩)⟩

/-- **What is left goes through** exactly when the keys differ at the end. -/
theorem updateFrom_eq_some : ∀ {rows done : List ρ},
    (∀ r ∈ rows, p r = true → f r = some (g r)) → (∀ r ∈ rows, p r = false → g r = r) →
    ((done ++ rows).map key).Nodup →
    (∀ r ∈ rows, ∀ s ∈ rows, p r = true → p s = true → key (g r) ≠ key s) →
    (updateFrom key p f done rows = some out ↔
      out = done ++ rows.map g ∧ ((done ++ rows.map g).map key).Nodup)
  | [], done, _, _, hnd, _ => by
    rw [List.append_nil] at hnd
    rw [updateFrom, List.map_nil, List.append_nil, Option.some.injEq, eq_comm]
    exact (and_iff_left hnd).symm
  | r :: rows, done, hf, hg, hnd, hfresh => by
    have hf' : ∀ a ∈ rows, p a = true → f a = some (g a) :=
      fun a ha => hf a (List.mem_cons_of_mem _ ha)
    have hg' : ∀ a ∈ rows, p a = false → g a = a := fun a ha => hg a (List.mem_cons_of_mem _ ha)
    obtain ⟨hrest, hne⟩ := key_ne_of_nodup hnd
    have hfresh' : ∀ a ∈ rows, ∀ b ∈ rows, p a = true → p b = true → key (g a) ≠ key b :=
      fun a ha b hb => hfresh a (List.mem_cons_of_mem _ ha) b (List.mem_cons_of_mem _ hb)
    have hcons : done ++ (r :: rows).map g = done ++ [g r] ++ rows.map g := by simp
    rw [updateFrom, hcons]
    cases hp : p r with
    | false =>
      rw [hg r List.mem_cons_self hp]
      exact updateFrom_eq_some hf' hg' (by simpa using hnd) hfresh'
    | true =>
      rw [if_pos rfl, hf r List.mem_cons_self hp]
      dsimp only
      split
      · -- some row has the key now: it is there at the end, or it stays as it is
        rename_i hany
        obtain ⟨s, hs, hkey⟩ := List.any_eq_true.mp hany
        replace hkey := of_decide_eq_true hkey
        refine iff_of_false (by rintro ⟨⟩) fun h => ?_
        have hend : ∀ s ∈ done ++ rows.map g, key s ≠ key (g r) :=
          (key_ne_of_nodup (by rw [← List.singleton_append, ← List.append_assoc]; exact h.2)).2
        rcases List.mem_append.mp hs with hs | hs
        · exact hend s (List.mem_append_left _ hs) hkey
        · have hps : p s = false := by
            rw [← Bool.not_eq_true]
            exact fun hps => hfresh r List.mem_cons_self s (List.mem_cons_of_mem _ hs) hp hps
              hkey.symm
          refine hend s (List.mem_append_right _ (List.mem_map.mpr ⟨s, hs, hg' s hs hps⟩)) hkey
      · rename_i hany
        refine updateFrom_eq_some hf' hg' (nodup_insert hrest fun s hs hkey => hany ?_) hfresh'
        exact List.any_eq_true.mpr ⟨s, hs, decide_eq_true hkey⟩

/-- **An update goes through** exactly when the keys of the new rows differ, where no row that is
updated has a key that another is given. -/
theorem update_eq_some (hf : ∀ r ∈ rows, p r = true → f r = some (g r))
    (hg : ∀ r ∈ rows, p r = false → g r = r) (hnd : (rows.map key).Nodup)
    (hfresh : ∀ r ∈ rows, ∀ s ∈ rows, p r = true → p s = true → key (g r) ≠ key s) :
    update key p f rows = some out ↔ out = rows.map g ∧ ((rows.map g).map key).Nodup := by
  have hall : (([] ++ rows).map key).Nodup := hnd
  exact updateFrom_eq_some hf hg hall hfresh

/-- **An update keeps the keys distinct.** -/
theorem nodup_updateFrom : ∀ {rows done : List ρ}, ((done ++ rows).map key).Nodup →
    updateFrom key p f done rows = some out → (out.map key).Nodup
  | [], done, hnd, h => by
    obtain rfl := Option.some.inj h
    rwa [List.append_nil] at hnd
  | r :: rows, done, hnd, h => by
    rw [updateFrom] at h
    split at h
    · split at h
      · cases h
      · next r' _ =>
        split at h
        · cases h
        · next hany =>
          refine nodup_updateFrom (nodup_insert (key_ne_of_nodup hnd).1 fun s hs hkey => hany ?_) h
          exact List.any_eq_true.mpr ⟨s, hs, decide_eq_true hkey⟩
    · refine nodup_updateFrom ?_ h
      rwa [List.append_assoc, List.singleton_append]

theorem nodup_update (hnd : (rows.map key).Nodup) (h : update key p f rows = some out) :
    (out.map key).Nodup :=
  have hall : (([] ++ rows).map key).Nodup := hnd
  nodup_updateFrom hall h

end EmeraldExchange.KeyedRows
