import Mathlib.Data.List.Basic
import Mathlib.Data.List.Nodup
import EmeraldExchange.Lib.Table

/-!
# Maps in the order of insertion

A hash map that remembers the order in which its keys first came: an entry that is written again
keeps its place. It is a list of pairs no two of which have the same key, so that an entry is
looked up exactly when it is in the list (`IndexMap.lookup_eq_some`), and every
operation is known from the entries that it leaves.
-/

namespace EmeraldExchange

/-- **A map that keeps the order of insertion.** -/
structure IndexMap (κ ν : Type*) where
  entries : List (κ × ν)
  nodup : (entries.map Prod.fst).Nodup

namespace IndexMap

variable {κ ν : Type*}

def empty : IndexMap κ ν := ⟨[], List.nodup_nil⟩

def single (k : κ) (v : ν) : IndexMap κ ν := ⟨[(k, v)], List.nodup_singleton k⟩

def keys (m : IndexMap κ ν) : List κ := m.entries.map Prod.fst

def values (m : IndexMap κ ν) : List ν := m.entries.map Prod.snd

def isEmpty (m : IndexMap κ ν) : Bool := m.entries.isEmpty

def firstKey (m : IndexMap κ ν) : Option κ := m.keys.head?

/-- Keep the entries that pass a test, which may change them. -/
def retainMut (f : κ → ν → Option ν) (m : IndexMap κ ν) : IndexMap κ ν where
  entries := m.entries.filterMap fun e => (f e.1 e.2).map fun v => (e.1, v)
  nodup := by
    have hsub : ∀ l : List (κ × ν),
        ((l.filterMap fun e => (f e.1 e.2).map fun v => (e.1, v)).map Prod.fst).Sublist
          (l.map Prod.fst) := by
      intro l
      induction l with
      | nil => exact List.Sublist.slnil
      | cons e l ih =>
        rw [List.filterMap_cons, List.map_cons]
        split
        · exact ih.cons _
        · next h =>
          obtain ⟨v, -, rfl⟩ := Option.map_eq_some_iff.mp h
          exact ih.cons_cons _
    exact m.nodup.sublist (hsub m.entries)

/-- Keep the entries whose key passes a test, and change the values. -/
def mapKeep {ν' : Type*} (p : κ → Bool) (f : ν → ν') (m : IndexMap κ ν) : IndexMap κ ν' where
  entries := (m.entries.filter fun e => p e.1).map fun e => (e.1, f e.2)
  nodup := by
    rw [List.map_map]
    exact m.nodup.sublist (List.filter_sublist.map Prod.fst)

def ofTable (t : Table κ ν) : IndexMap κ ν where
  entries := t.entries.map fun e => (e.1, e.2)
  nodup := by
    rw [List.map_map]
    exact t.nodupKeys

def toTable (m : IndexMap κ ν) : Table κ ν where
  entries := m.entries.map fun e => ⟨e.1, e.2⟩
  nodupKeys := by
    rw [List.NodupKeys, List.keys, List.map_map]
    exact m.nodup

theorem ofTable_toTable (m : IndexMap κ ν) : ofTable m.toTable = m := by
  obtain ⟨entries, _⟩ := m
  simp [ofTable, toTable, Function.comp_def]

theorem toTable_ofTable (t : Table κ ν) : (ofTable t).toTable = t := by
  refine AList.ext ?_
  show (t.entries.map fun e => (e.1, e.2)).map (fun e => (⟨e.1, e.2⟩ : Sigma fun _ : κ => ν)) = _
  rw [List.map_map]
  exact List.map_id _

theorem ext_entries {m m' : IndexMap κ ν} (h : m.entries = m'.entries) : m = m' := by
  obtain ⟨entries, _⟩ := m
  obtain rfl : entries = m'.entries := h
  rfl

theorem isEmpty_iff {m : IndexMap κ ν} : m.isEmpty = true ↔ m.keys = [] := by
  rw [isEmpty, List.isEmpty_iff, keys, List.map_eq_nil_iff]

theorem mem_keys_of_firstKey {m : IndexMap κ ν} {k : κ} (h : m.firstKey = some k) :
    k ∈ m.keys :=
  List.mem_of_head? h

theorem exists_firstKey {m : IndexMap κ ν} (h : m.isEmpty = false) :
    ∃ k, m.firstKey = some k := by
  rw [firstKey]
  cases hk : m.keys with
  | nil =>
    rw [isEmpty_iff.mpr hk] at h
    cases h
  | cons k ks => exact ⟨k, rfl⟩

variable [DecidableEq κ]

def lookup (k : κ) (m : IndexMap κ ν) : Option ν :=
  (m.entries.find? fun e => e.1 = k).map Prod.snd

/-- Remove the entry of a key, the others keep their order. -/
def shiftRemove (k : κ) (m : IndexMap κ ν) : IndexMap κ ν where
  entries := m.entries.filter fun e => e.1 ≠ k
  nodup := m.nodup.sublist (List.filter_sublist.map Prod.fst)

/-- Write the value of a key: in its place if it is there, else at the end. -/
def insert (k : κ) (v : ν) (m : IndexMap κ ν) : IndexMap κ ν where
  entries :=
    if k ∈ m.keys then m.entries.map fun e => if e.1 = k then (k, v) else e
    else m.entries ++ [(k, v)]
  nodup := by
    split
    · have hfst : ((m.entries.map fun e => if e.1 = k then (k, v) else e).map Prod.fst) =
          m.entries.map Prod.fst := by
        rw [List.map_map]
        refine List.map_congr_left fun e _ => ?_
        rcases eq_or_ne e.1 k with he | he <;> simp [he]
      exact hfst ▸ m.nodup
    · next h =>
      rw [List.map_append, List.map_singleton]
      exact m.nodup.append (List.nodup_singleton k)
        (List.disjoint_singleton.mpr h)

/-! ### What is looked up -/

/-- **An entry is looked up exactly when it is there.** -/
theorem lookup_eq_some {m : IndexMap κ ν} {k : κ} {v : ν} :
    m.lookup k = some v ↔ (k, v) ∈ m.entries := by
  have hfind : ∀ l : List (κ × ν), (l.map Prod.fst).Nodup →
      ((l.find? fun e => e.1 = k).map Prod.snd = some v ↔ (k, v) ∈ l) := by
    intro l hl
    induction l with
    | nil => simp
    | cons e l ih =>
      obtain ⟨he, hl⟩ := List.nodup_cons.mp (List.map_cons ▸ hl)
      rcases eq_or_ne e.1 k with rfl | hne
      · rw [List.find?_cons_of_pos (by simp), List.mem_cons]
        constructor
        · intro h
          obtain rfl : e.2 = v := by simpa using h
          exact Or.inl rfl
        · rintro (h | h)
          · rw [← h]
            rfl
          · exact absurd (List.mem_map_of_mem h) he
      · rw [List.find?_cons_of_neg (by simpa using hne), ih hl, List.mem_cons]
        constructor
        · exact Or.inr
        · rintro (h | h)
          · exact absurd (congrArg Prod.fst h).symm hne
          · exact h
  exact hfind m.entries m.nodup

theorem mem_keys {m : IndexMap κ ν} {k : κ} : k ∈ m.keys ↔ ∃ v, m.lookup k = some v := by
  rw [keys, List.mem_map]
  constructor
  · rintro ⟨⟨k, v⟩, hmem, rfl⟩
    exact ⟨v, lookup_eq_some.mpr hmem⟩
  · rintro ⟨v, hv⟩
    exact ⟨(k, v), lookup_eq_some.mp hv, rfl⟩

@[simp] theorem lookup_empty (k : κ) : (empty : IndexMap κ ν).lookup k = none := rfl

theorem lookup_shiftRemove (k : κ) (m : IndexMap κ ν) (k' : κ) :
    (m.shiftRemove k).lookup k' = if k' = k then none else m.lookup k' := by
  ext v
  rw [lookup_eq_some, shiftRemove, List.mem_filter]
  rcases eq_or_ne k' k with rfl | hne
  · simp
  · rw [if_neg hne, lookup_eq_some]
    simp [hne]

theorem lookup_retainMut (f : κ → ν → Option ν) (m : IndexMap κ ν) (k : κ) :
    (m.retainMut f).lookup k = (m.lookup k).bind (f k) := by
  ext v
  rw [lookup_eq_some, retainMut, List.mem_filterMap, Option.bind_eq_some_iff]
  constructor
  · rintro ⟨⟨k', w⟩, hmem, hf⟩
    obtain ⟨v', hv', heq⟩ := Option.map_eq_some_iff.mp hf
    obtain ⟨rfl, rfl⟩ := Prod.mk.inj heq
    exact ⟨w, lookup_eq_some.mpr hmem, hv'⟩
  · rintro ⟨w, hw, hf⟩
    exact ⟨(k, w), lookup_eq_some.mp hw, by simp [hf]⟩

theorem lookup_insert (k : κ) (v : ν) (m : IndexMap κ ν) (k' : κ) :
    (m.insert k v).lookup k' = if k' = k then some v else m.lookup k' := by
  ext w
  rw [lookup_eq_some, insert]
  split
  · next hmem =>
    -- the key has a place, which takes the value
    obtain ⟨old, hold⟩ := mem_keys.mp hmem
    rw [List.mem_map]
    constructor
    · rintro ⟨e, he, heq⟩
      rcases eq_or_ne e.1 k with hek | hek
      · rw [if_pos hek] at heq
        obtain ⟨rfl, rfl⟩ := Prod.mk.inj heq
        rw [if_pos rfl]
      · rw [if_neg hek] at heq
        subst heq
        rw [if_neg hek, lookup_eq_some]
        exact he
    · rcases eq_or_ne k' k with rfl | hne
      · rw [if_pos rfl]
        rintro h
        obtain rfl := Option.some.inj h
        exact ⟨(k', old), lookup_eq_some.mp hold, by simp⟩
      · rw [if_neg hne, lookup_eq_some]
        exact fun h => ⟨(k', w), h, by simp [hne]⟩
  · next hmem =>
    rw [List.mem_append, List.mem_singleton]
    rcases eq_or_ne k' k with rfl | hne
    · rw [if_pos rfl]
      constructor
      · rintro (h | h)
        · exact absurd (List.mem_map_of_mem h) hmem
        · rw [(Prod.mk.inj h).2]
      · intro h
        obtain rfl := Option.some.inj h
        exact Or.inr rfl
    · rw [if_neg hne, lookup_eq_some]
      constructor
      · rintro (h | h)
        · exact h
        · exact absurd (Prod.mk.inj h).1 hne
      · exact Or.inl

/-! ### The keys -/

theorem mem_keys_shiftRemove {m : IndexMap κ ν} {k k' : κ} :
    k' ∈ (m.shiftRemove k).keys ↔ k' ≠ k ∧ k' ∈ m.keys := by
  simp only [mem_keys, lookup_shiftRemove]
  rcases eq_or_ne k' k with rfl | hne
  · simp
  · simp [hne]

theorem mem_keys_insert {m : IndexMap κ ν} {k k' : κ} {v : ν} :
    k' ∈ (m.insert k v).keys ↔ k' = k ∨ k' ∈ m.keys := by
  simp only [mem_keys, lookup_insert]
  rcases eq_or_ne k' k with rfl | hne
  · simp
  · simp [hne]

end IndexMap

end EmeraldExchange
