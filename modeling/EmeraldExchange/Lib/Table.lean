import Mathlib.Data.List.AList

/-!
# Tables

A hash map with keys `κ` and values `ν` is a list of entries no two of which have the same
key, Mathlib's `AList`. This module adds the operations of a hash map that Mathlib does not
name: its values, a change of one value in place, and the removal of all entries that fail a
test, with what each of them does to the size.

The order of the entries is that of their insertion, latest first. A hash map promises no
order, so nothing that is read from a table may depend on it.
-/

namespace EmeraldExchange

abbrev Table (κ ν : Type*) := AList fun _ : κ => ν

namespace Table

variable {κ ν : Type*}

def size (t : Table κ ν) : ℕ := t.entries.length

def values (t : Table κ ν) : List ν := t.entries.map Sigma.snd

/-- Keep the entries whose value passes a test. -/
def retain (p : ν → Bool) (t : Table κ ν) : Table κ ν :=
  ⟨t.entries.filter fun e => p e.2, t.nodupKeys.sublist List.filter_sublist⟩

/-- Keep the entries whose key passes a test. -/
def retainKeys (p : κ → Bool) (t : Table κ ν) : Table κ ν :=
  ⟨t.entries.filter fun e => p e.1, t.nodupKeys.sublist List.filter_sublist⟩

/-- Change the value of a key, if it has one. -/
def modify [DecidableEq κ] (k : κ) (f : ν → ν) (t : Table κ ν) : Table κ ν :=
  match t.lookup k with
  | some v => t.replace k (f v)
  | none => t

theorem size_eq_keys (t : Table κ ν) : t.size = t.keys.length := by
  simp [size, AList.keys, List.keys]

variable [DecidableEq κ]

@[simp] theorem size_modify (k : κ) (f : ν → ν) (t : Table κ ν) :
    (t.modify k f).size = t.size := by
  unfold modify
  split
  · rw [size_eq_keys, AList.keys_replace, size_eq_keys]
  · rfl

/-- Insert an entry, in place of one of the same key. -/
abbrev insert (k : κ) (v : ν) (t : Table κ ν) : Table κ ν := AList.insert k v t

/-- Remove the entry of a key, if there is one. -/
abbrev erase (k : κ) (t : Table κ ν) : Table κ ν := AList.erase k t

theorem size_insert_le (k : κ) (v : ν) (t : Table κ ν) : (t.insert k v).size ≤ t.size + 1 := by
  rw [size_eq_keys, AList.keys_insert, size_eq_keys, List.length_cons]
  exact Nat.succ_le_succ (List.length_erase_le ..)

theorem size_erase_of_mem {k : κ} {t : Table κ ν} (h : k ∈ t) :
    (t.erase k).size + 1 = t.size := by
  rw [size_eq_keys, AList.keys_erase, size_eq_keys]
  have hpos := List.length_pos_of_mem (AList.mem_keys.mp h)
  rw [List.length_erase_of_mem (AList.mem_keys.mp h)]
  omega

theorem size_erase_le (k : κ) (t : Table κ ν) : (t.erase k).size ≤ t.size := by
  rw [size_eq_keys, AList.keys_erase, size_eq_keys]
  exact List.length_erase_le ..

/-! ### What the operations do to the entries -/

omit [DecidableEq κ] in
theorem mem_values {v : ν} {t : Table κ ν} : v ∈ t.values ↔ ∃ k, ⟨k, v⟩ ∈ t.entries := by
  rw [values, List.mem_map]
  constructor
  · rintro ⟨⟨k, v⟩, hmem, rfl⟩
    exact ⟨k, hmem⟩
  · rintro ⟨k, hmem⟩
    exact ⟨⟨k, v⟩, hmem, rfl⟩

omit [DecidableEq κ] in
theorem mem_values_of_retainKeys {p : κ → Bool} {t : Table κ ν} {v : ν}
    (h : v ∈ (t.retainKeys p).values) : v ∈ t.values := by
  obtain ⟨k, hmem⟩ := mem_values.mp h
  exact mem_values.mpr ⟨k, List.mem_of_mem_filter hmem⟩

omit [DecidableEq κ] in
theorem mem_retainKeys {p : κ → Bool} {t : Table κ ν} {k : κ} :
    k ∈ t.retainKeys p ↔ k ∈ t ∧ p k = true := by
  rw [AList.mem_keys, AList.mem_keys]
  constructor
  · intro h
    obtain ⟨v, he⟩ := List.exists_of_mem_keys h
    obtain ⟨hmem, hp⟩ := List.mem_filter.mp he
    exact ⟨List.mem_keys_of_mem hmem, hp⟩
  · rintro ⟨h, hp⟩
    obtain ⟨v, he⟩ := List.exists_of_mem_keys h
    have hmem : (⟨k, v⟩ : Sigma fun _ : κ => ν) ∈ (t.retainKeys p).entries :=
      List.mem_filter.mpr ⟨he, hp⟩
    exact List.mem_keys_of_mem hmem

theorem lookup_retain (p : ν → Bool) (t : Table κ ν) (k : κ) :
    (t.retain p).lookup k = (t.lookup k).filter p := by
  ext v
  rw [Option.filter_eq_some_iff, ← Option.mem_def, AList.mem_lookup_iff, ← Option.mem_def,
    AList.mem_lookup_iff]
  exact List.mem_filter

theorem lookup_retainKeys (p : κ → Bool) (t : Table κ ν) (k : κ) :
    (t.retainKeys p).lookup k = if p k then t.lookup k else none := by
  ext v
  rw [← Option.mem_def, AList.mem_lookup_iff]
  by_cases hp : p k
  · rw [if_pos hp, ← Option.mem_def, AList.mem_lookup_iff]
    simp [retainKeys, hp]
  · simp [retainKeys, hp]

theorem mem_values_of_lookup {t : Table κ ν} {k : κ} {v : ν} (h : t.lookup k = some v) :
    v ∈ t.values :=
  mem_values.mpr ⟨k, AList.mem_lookup_iff.mp h⟩

theorem mem_values_insert {t : Table κ ν} {k : κ} {v w : ν} (h : w ∈ (t.insert k v).values) :
    w = v ∨ w ∈ t.values := by
  obtain ⟨k', hmem⟩ := mem_values.mp h
  rw [AList.entries_insert, List.mem_cons] at hmem
  rcases hmem with heq | hmem
  · obtain ⟨-, rfl⟩ := Sigma.mk.inj heq
    exact Or.inl rfl
  · exact Or.inr (mem_values.mpr ⟨k', (List.kerase_sublist k t.entries).subset hmem⟩)

/-- **What is looked up after an insertion** was inserted, or was there before. -/
theorem lookup_insert_cases {t : Table κ ν} {k k' : κ} {v w : ν}
    (h : (t.insert k v).lookup k' = some w) :
    k' = k ∧ v = w ∨ k' ≠ k ∧ t.lookup k' = some w := by
  rcases eq_or_ne k' k with rfl | hne
  · rw [AList.lookup_insert] at h
    exact .inl ⟨rfl, Option.some.inj h⟩
  · rw [AList.lookup_insert_ne hne] at h
    exact .inr ⟨hne, h⟩

/-- Insert an entry unless there is one of the same key. -/
def insertOrIgnore (k : κ) (v : ν) (t : Table κ ν) : Table κ ν :=
  if (t.lookup k).isSome then t else t.insert k v

theorem lookup_insertOrIgnore (k : κ) (v : ν) (t : Table κ ν) (k' : κ) :
    (t.insertOrIgnore k v).lookup k' = (t.lookup k').or (if k' = k then some v else none) := by
  unfold insertOrIgnore
  split
  · next h =>
    rcases eq_or_ne k' k with rfl | hne
    · obtain ⟨w, hw⟩ := Option.isSome_iff_exists.mp h
      simp [hw]
    · simp [hne]
  · next h =>
    rcases eq_or_ne k' k with rfl | hne
    · simp [Option.not_isSome_iff_eq_none.mp h]
    · simp [AList.lookup_insert_ne hne, hne]

omit [DecidableEq κ] in
def mapValues (f : κ → ν → ν) (t : Table κ ν) : Table κ ν :=
  ⟨t.entries.map (Sigma.map id f), by
    rw [List.NodupKeys, List.keys, List.map_map]
    exact t.nodupKeys⟩

@[simp] theorem lookup_mapValues (f : κ → ν → ν) (t : Table κ ν) (k : κ) :
    (t.mapValues f).lookup k = (t.lookup k).map (f k) :=
  List.dlookup_map₂ (l := t.entries) (f := f) k

theorem kreplace_eq_map {k : κ} {v : ν} (f : ν → ν) : ∀ {l : List (Sigma fun _ : κ => ν)},
    l.NodupKeys → l.dlookup k = some v →
    l.kreplace k (f v) = l.map (Sigma.map id fun k' w => if k' = k then f w else w)
  | [], _, h => by simp at h
  | ⟨k', v'⟩ :: l, hnodup, h => by
    obtain ⟨hk', hl⟩ := List.nodupKeys_cons.mp hnodup
    rcases eq_or_ne k k' with rfl | hne
    · obtain rfl : v' = v := by simpa using h
      have hrest : l.map (Sigma.map id fun k' w => if k' = k then f w else w) = l := by
        refine (List.map_congr_left fun e he => ?_).trans (List.map_id l)
        have hmem : e.1 ∈ l.keys := List.mem_keys_of_mem he
        have hek : e.1 ≠ k := fun hek => hk' (hek ▸ hmem)
        simp [Sigma.map, hek]
      simp [List.kreplace, Sigma.map, hrest]
    · rw [List.dlookup_cons_ne _ _ hne] at h
      have ih := kreplace_eq_map f hl h
      simp only [List.kreplace] at ih
      simp [List.kreplace, Sigma.map, hne, Ne.symm hne, ih]

/-- **A change of one value** is a change of every value that leaves the others. -/
theorem modify_eq_mapValues (k : κ) (f : ν → ν) (t : Table κ ν) :
    t.modify k f = t.mapValues fun k' v => if k' = k then f v else v := by
  refine AList.ext ?_
  unfold modify
  cases h : t.lookup k with
  | some v => exact kreplace_eq_map f t.nodupKeys h
  | none =>
    refine ((List.map_congr_left fun e he => ?_).trans (List.map_id _)).symm
    have hek : e.1 ≠ k := by
      rintro rfl
      exact AList.lookup_eq_none.mp h (AList.mem_keys.mpr (List.mem_keys_of_mem he))
    simp [Sigma.map, hek]

theorem lookup_modify (k : κ) (f : ν → ν) (t : Table κ ν) (k' : κ) :
    (t.modify k f).lookup k' = (t.lookup k').map fun v => if k' = k then f v else v := by
  rw [modify_eq_mapValues, lookup_mapValues]

/-- What a change does not show to `g` stays as it was under `g`. -/
theorem map_values_modify {β : Type*} {g : ν → β} {f : ν → ν} (hg : ∀ v, g (f v) = g v) (k : κ)
    (t : Table κ ν) : (t.modify k f).values.map g = t.values.map g := by
  rw [modify_eq_mapValues, values, mapValues, values, List.map_map, List.map_map, List.map_map]
  refine List.map_congr_left fun e _ => ?_
  rcases eq_or_ne e.1 k with he | he
  · simp [Sigma.map, he, hg]
  · simp [Sigma.map, he]

theorem entries_erase (k : κ) (t : Table κ ν) :
    (t.erase k).entries = t.entries.filter fun e => e.1 ≠ k := by
  have h : ∀ {l : List (Sigma fun _ : κ => ν)}, l.NodupKeys →
      l.kerase k = l.filter fun e => e.1 ≠ k := by
    intro l hl
    induction l with
    | nil => rfl
    | cons e l ih =>
      obtain ⟨he, hl⟩ := List.nodupKeys_cons.mp (show (⟨e.1, e.2⟩ :: l : List _).NodupKeys from hl)
      rcases eq_or_ne k e.1 with rfl | hne
      · have hrest : l.filter (fun e' => e'.1 ≠ e.1) = l := by
          refine List.filter_eq_self.mpr fun e' he' => ?_
          have hne : e'.1 ≠ e.1 := fun h => he (h ▸ List.mem_keys_of_mem he')
          simpa using hne
        rw [List.kerase_cons_eq rfl, List.filter_cons_of_neg (by simp), hrest]
      · rw [List.kerase_cons_ne hne, List.filter_cons_of_pos (by simpa using Ne.symm hne), ih hl]
  exact h t.nodupKeys

theorem entries_foldl_erase (ks : List κ) (t : Table κ ν) :
    (ks.foldl (fun m k => erase k m) t).entries = t.entries.filter fun e => e.1 ∉ ks := by
  induction ks generalizing t with
  | nil => simp
  | cons k ks ih =>
    rw [List.foldl_cons, ih, entries_erase, List.filter_filter]
    refine List.filter_congr fun e _ => ?_
    simp [Bool.and_comm]

/-! ### Rows -/

omit [DecidableEq κ] in
def retainRows (p : κ → ν → Bool) (t : Table κ ν) : Table κ ν :=
  ⟨t.entries.filter fun e => p e.1 e.2, t.nodupKeys.sublist List.filter_sublist⟩

theorem lookup_retainRows (p : κ → ν → Bool) (t : Table κ ν) (k : κ) :
    (t.retainRows p).lookup k = (t.lookup k).filter (p k) := by
  ext v
  rw [Option.filter_eq_some_iff, ← Option.mem_def, AList.mem_lookup_iff, ← Option.mem_def,
    AList.mem_lookup_iff]
  exact List.mem_filter

/-- Insert the entries of another table, none of which may have a key that is there. -/
def insertNew (t s : Table κ ν) : Option (Table κ ν) :=
  if s.keys.all (· ∉ t) then some (s ∪ t) else none

/-- **They are inserted if none of their keys is there.** -/
theorem isSome_insertNew {t s : Table κ ν} :
    (t.insertNew s).isSome = true ↔ ∀ k, (s.lookup k).isSome → t.lookup k = none := by
  have hall : s.keys.all (· ∉ t) = true ↔ ∀ k, (s.lookup k).isSome → t.lookup k = none := by
    rw [List.all_eq_true]
    refine forall_congr' fun k => ?_
    rw [AList.lookup_isSome, ← AList.mem_keys, decide_eq_true_eq, AList.lookup_eq_none]
  rw [← hall, insertNew]
  by_cases h : s.keys.all (· ∉ t) = true
  · simp only [h, if_true, Option.isSome_some]
  · rw [if_neg h]
    simp only [h, Option.isSome_none, Bool.false_eq_true]

/-- **What is looked up then.** -/
theorem lookup_of_insertNew {t s u : Table κ ν} (h : t.insertNew s = some u) (k : κ) :
    u.lookup k = (s.lookup k).or (t.lookup k) := by
  rw [insertNew] at h
  split at h
  · obtain rfl := Option.some.inj h
    by_cases hk : k ∈ s
    · obtain ⟨v, hv⟩ := Option.isSome_iff_exists.mp (AList.lookup_isSome.mpr hk)
      rw [AList.lookup_union_left hk, hv, Option.some_or]
    · rw [AList.lookup_union_right hk, AList.lookup_eq_none.mpr hk, Option.none_or]
  · cases h

/-! ### Rows by key -/

section lastOf

variable {ρ : Type*} {key : ρ → κ} {k : κ} {r : ρ} {rows : List ρ}

def lastOf (key : ρ → κ) (k : κ) (rows : List ρ) : Option ρ := rows.reverse.find? fun r => key r = k

@[simp] theorem lastOf_nil : lastOf key k ([] : List ρ) = none := rfl

theorem lastOf_append (rows rows' : List ρ) :
    lastOf key k (rows ++ rows') = (lastOf key k rows').or (lastOf key k rows) := by
  rw [lastOf, List.reverse_append, List.find?_append]
  rfl

theorem lastOf_cons (r : ρ) (rows : List ρ) :
    lastOf key k (r :: rows) = (lastOf key k rows).or (if key r = k then some r else none) := by
  rw [← List.singleton_append, lastOf_append]
  congr 1
  by_cases h : key r = k <;> simp [lastOf, h]

theorem mem_of_lastOf (h : lastOf key k rows = some r) : r ∈ rows ∧ key r = k := by
  rw [lastOf] at h
  exact ⟨List.mem_reverse.mp (List.mem_of_find?_eq_some h), by simpa using List.find?_some h⟩

theorem lastOf_eq_none : lastOf key k rows = none ↔ ∀ r ∈ rows, key r ≠ k := by
  rw [lastOf, List.find?_eq_none]
  simp

theorem lastOf_eq_some_of_unique (hr : r ∈ rows) (hk : key r = k)
    (hunique : ∀ r' ∈ rows, key r' = k → r' = r) : lastOf key k rows = some r := by
  cases h : lastOf key k rows with
  | none => exact absurd hk (lastOf_eq_none.mp h r hr)
  | some r' =>
    obtain ⟨hr', hk'⟩ := mem_of_lastOf h
    rw [hunique r' hr' hk']

/-- Insert rows one after the other, each in place of one of the same key. The value may depend on
what is there. -/
def upsertAll (key : ρ → κ) (merge : ρ → Option ν → ν) (rows : List ρ) (t : Table κ ν) :
    Table κ ν :=
  rows.foldl (fun t r => t.insert (key r) (merge r (t.lookup (key r)))) t

/-- **What is looked up then** is what the last row of the key has made, or what was there. -/
theorem lookup_upsertAll (key : ρ → κ) (merge : ρ → Option ν → ν) (rows : List ρ) (t : Table κ ν)
    (k : κ) :
    match lastOf key k rows with
    | some r => ∃ old, (t.upsertAll key merge rows).lookup k = some (merge r old)
    | none => (t.upsertAll key merge rows).lookup k = t.lookup k := by
  induction rows generalizing t with
  | nil => rfl
  | cons r rows ih =>
    have ih := ih (t.insert (key r) (merge r (t.lookup (key r))))
    rw [lastOf_cons]
    cases h : lastOf key k rows with
    | some r' =>
      rw [h] at ih
      exact ih
    | none =>
      rw [h] at ih
      rw [upsertAll, List.foldl_cons]
      by_cases hk : key r = k
      · obtain rfl := hk
        rw [if_pos rfl]
        exact ⟨_, ih.trans (AList.lookup_insert t)⟩
      · rw [if_neg hk]
        exact ih.trans (AList.lookup_insert_ne (Ne.symm hk))

theorem lookup_upsertAll_const (f : ρ → ν) (rows : List ρ) (t : Table κ ν) (k : κ) :
    (t.upsertAll key (fun r _ => f r) rows).lookup k =
      ((lastOf key k rows).map f).or (t.lookup k) := by
  have h := lookup_upsertAll key (fun r _ => f r) rows t k
  cases hlast : lastOf key k rows with
  | some r =>
    rw [hlast] at h
    obtain ⟨-, h⟩ := h
    rw [h]
    rfl
  | none =>
    rw [hlast] at h
    rw [h]
    rfl

/-- **Replacing a table**: what is upserted passes a test that nothing passed before, and the rest
is dropped. Then the rows are all that is left. -/
theorem lookup_retain_upsertAll (key : ρ → κ) {merge : ρ → Option ν → ν} {p : ν → Bool}
    {t : Table κ ν} (hold : ∀ v ∈ t.values, p v = false) (hnew : ∀ r old, p (merge r old) = true)
    (rows : List ρ) (k : κ) :
    match lastOf key k rows with
    | some r => ∃ old, ((t.upsertAll key merge rows).retain p).lookup k = some (merge r old)
    | none => ((t.upsertAll key merge rows).retain p).lookup k = none := by
  have h := lookup_upsertAll key merge rows t k
  rw [lookup_retain]
  cases hlast : lastOf key k rows with
  | some r =>
    rw [hlast] at h
    obtain ⟨old, h⟩ := h
    exact ⟨old, by simp [h, hnew]⟩
  | none =>
    rw [hlast] at h
    dsimp only at h ⊢
    rw [h, Option.filter_eq_none_iff]
    rintro v hv
    simp [hold v (mem_values_of_lookup hv)]

theorem lookup_retain_upsertAll_const {f : ρ → ν} {p : ν → Bool} {t : Table κ ν}
    (hold : ∀ v ∈ t.values, p v = false) (hnew : ∀ r, p (f r) = true) (rows : List ρ) (k : κ) :
    ((t.upsertAll key (fun r _ => f r) rows).retain p).lookup k = (lastOf key k rows).map f := by
  have h := lookup_retain_upsertAll key hold (fun r (_ : Option ν) => hnew r) rows k
  cases hlast : lastOf key k rows with
  | some r =>
    rw [hlast] at h
    obtain ⟨-, h⟩ := h
    exact h
  | none =>
    rw [hlast] at h
    exact h

end lastOf

end Table

end EmeraldExchange
