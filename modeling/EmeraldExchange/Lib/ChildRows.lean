import EmeraldExchange.Lib.Table

/-!
# Rows under a parent

A plain insert fails where there is a row of the same key, and the rows of a parent are replaced by
deleting them and inserting others. That goes through where no two of the others have one key
(`isSome_replaceUnder`), and then the parent has these rows
(`lookup_replaceUnder`).
-/

namespace EmeraldExchange.Table

variable {γ κ ν : Type*} [DecidableEq γ] [DecidableEq κ]

/-- A plain insert: there must be no row of the key. -/
def insertRow (k : κ) (v : ν) (t : Table κ ν) : Option (Table κ ν) :=
  match t.lookup k with
  | some _ => none
  | none => some (t.insert k v)

def insertRows (rows : List (κ × ν)) (t : Table κ ν) : Option (Table κ ν) :=
  rows.foldlM (fun t r => t.insertRow r.1 r.2) t

def clearUnder (p : γ) (t : Table (γ × κ) ν) : Table (γ × κ) ν := t.retainKeys fun k => k.1 ≠ p

/-- **The rows of a parent are replaced.** -/
def replaceUnder (p : γ) (rows : List (κ × ν)) (t : Table (γ × κ) ν) : Option (Table (γ × κ) ν) :=
  (t.clearUnder p).insertRows (rows.map fun r => ((p, r.1), r.2))

variable {k : κ} {v : ν} {t u : Table κ ν}

theorem insertRow_eq_some : t.insertRow k v = some u ↔ t.lookup k = none ∧ u = t.insert k v := by
  rw [insertRow]
  cases h : t.lookup k with
  | none => simp [eq_comm]
  | some w => simp

/-- **What is there after plain inserts** was there before or is inserted. -/
theorem lookup_insertRows : ∀ {rows : List (κ × ν)} {t u : Table κ ν},
    t.insertRows rows = some u → (u.lookup k = some v ↔ t.lookup k = some v ∨ (k, v) ∈ rows)
  | [], t, u, h => by
    obtain rfl := Option.some.inj h
    simp
  | r :: rows, t, u, h => by
    obtain ⟨t', ht', h⟩ := Option.bind_eq_some_iff.mp (show (t.insertRow r.1 r.2).bind _ = _ from h)
    obtain ⟨hnone, rfl⟩ := insertRow_eq_some.mp ht'
    have hrest : ((t.insert r.1 r.2).insertRows rows) = some u := h
    rw [lookup_insertRows hrest, List.mem_cons, ← or_assoc]
    refine or_congr_left ?_
    by_cases hk : k = r.1
    · subst hk
      rw [AList.lookup_insert, hnone]
      simp [Prod.ext_iff, eq_comm]
    · rw [AList.lookup_insert_ne hk]
      simp [Prod.ext_iff, hk]

/-- **Plain inserts go through** where no two have one key and none has one that is taken. -/
theorem isSome_insertRows : ∀ {rows : List (κ × ν)} {t : Table κ ν},
    (t.insertRows rows).isSome = true ↔
      (rows.map Prod.fst).Nodup ∧ ∀ r ∈ rows, t.lookup r.1 = none
  | [], t => by simp [insertRows]
  | r :: rows, t => by
    have hcons : t.insertRows (r :: rows) =
        (t.insertRow r.1 r.2).bind fun t' => t'.insertRows rows := rfl
    rw [hcons, insertRow]
    cases hr : t.lookup r.1 with
    | some w => simp [hr]
    | none =>
      rw [Option.bind_some, isSome_insertRows, List.map_cons, List.nodup_cons]
      constructor
      · rintro ⟨hnodup, hall⟩
        have hne : ∀ r' ∈ rows, r'.1 ≠ r.1 := by
          intro r' hr' heq
          have hnone := hall r' hr'
          rw [heq, AList.lookup_insert] at hnone
          cases hnone
        refine ⟨⟨fun hmem => ?_, hnodup⟩, List.forall_mem_cons.mpr ⟨hr, fun r' hr' => ?_⟩⟩
        · obtain ⟨r', hr', heq⟩ := List.mem_map.mp hmem
          exact hne r' hr' heq
        · have hnone := hall r' hr'
          rwa [AList.lookup_insert_ne (hne r' hr')] at hnone
      · rintro ⟨⟨hnew, hnodup⟩, hall⟩
        refine ⟨hnodup, fun r' hr' => ?_⟩
        have hne : r'.1 ≠ r.1 := fun heq => hnew (List.mem_map.mpr ⟨r', hr', heq⟩)
        rw [AList.lookup_insert_ne hne]
        exact hall r' (List.mem_cons_of_mem _ hr')

/-! ### The rows of a parent -/

theorem lookup_clearUnder (p q : γ) (k : κ) (t : Table (γ × κ) ν) :
    (t.clearUnder p).lookup (q, k) = if q = p then none else t.lookup (q, k) := by
  rw [clearUnder, lookup_retainKeys]
  by_cases h : q = p
  · simp [h]
  · simp [h]

/-- **The rows of a parent can be replaced** by rows no two of which have one key. -/
theorem isSome_replaceUnder {p : γ} {rows : List (κ × ν)} {t : Table (γ × κ) ν} :
    (t.replaceUnder p rows).isSome = true ↔ (rows.map Prod.fst).Nodup := by
  rw [replaceUnder, isSome_insertRows, List.map_map, List.forall_mem_map]
  have hkeys : rows.map (Prod.fst ∘ fun r => ((p, r.1), r.2)) =
      (rows.map Prod.fst).map (Prod.mk p) := by
    rw [List.map_map]
    rfl
  rw [hkeys, List.nodup_map_iff fun _ _ h => (Prod.mk.inj h).2]
  refine and_iff_left fun r _ => ?_
  rw [lookup_clearUnder, if_pos rfl]

/-- **Then the parent has these rows.** -/
theorem lookup_replaceUnder {p : γ} {rows : List (κ × ν)} {t u : Table (γ × κ) ν}
    (h : t.replaceUnder p rows = some u) : u.lookup (p, k) = some v ↔ (k, v) ∈ rows := by
  rw [lookup_insertRows h, lookup_clearUnder, if_pos rfl, List.mem_map]
  simp

end EmeraldExchange.Table
