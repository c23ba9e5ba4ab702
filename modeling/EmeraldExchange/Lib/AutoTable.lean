import Mathlib.Data.List.Nodup

/-!
# Tables with an `AUTOINCREMENT` key

The rows of such a table are numbered, and a number that was given is never given again, whatever
is deleted. So a row keeps its number for as long as it is there, and what refers to a row by its
number never comes to refer to another.

A column that is `UNIQUE` is a partial function of the rows, of which no two have the same value
(`AutoTable.UniqueBy`).
-/

namespace EmeraldExchange

/-- **A table with an `AUTOINCREMENT` key**: its rows, and the number of the next. -/
structure AutoTable (ρ : Type*) where
  rows : List (ℕ × ρ)
  next : ℕ
  nodup : (rows.map Prod.fst).Nodup
  lt_next : ∀ x ∈ rows, x.1 < next

namespace AutoTable

variable {ρ κ : Type*}

def empty : AutoTable ρ := ⟨[], 1, List.nodup_nil, fun _ h => absurd h List.not_mem_nil⟩

instance : EmptyCollection (AutoTable ρ) := ⟨empty⟩

instance : Membership (ℕ × ρ) (AutoTable ρ) := ⟨fun t x => x ∈ t.rows⟩

theorem mem_def {t : AutoTable ρ} {x : ℕ × ρ} : x ∈ t ↔ x ∈ t.rows := Iff.rfl

@[simp] theorem not_mem_empty (x : ℕ × ρ) : x ∉ (∅ : AutoTable ρ) := List.not_mem_nil

theorem nodup_insert (v : ρ) (t : AutoTable ρ) :
    ((t.rows ++ [(t.next, v)]).map Prod.fst).Nodup := by
  rw [List.map_append, List.nodup_append]
  refine ⟨t.nodup, List.nodup_singleton _, ?_⟩
  rintro i hi j hj rfl
  obtain ⟨x, hx, rfl⟩ := List.mem_map.mp hi
  have hlt := t.lt_next x hx
  rw [List.mem_singleton.mp hj] at hlt
  exact Nat.lt_irrefl _ hlt

theorem lt_next_insert (v : ρ) (t : AutoTable ρ) :
    ∀ x ∈ t.rows ++ [(t.next, v)], x.1 < t.next + 1 := by
  rintro x hx
  rcases List.mem_append.mp hx with hx | hx
  · exact Nat.lt_succ_of_lt (t.lt_next x hx)
  · rw [List.mem_singleton.mp hx]
    exact Nat.lt_succ_self _

/-- `INSERT` -/
def insert (v : ρ) (t : AutoTable ρ) : AutoTable ρ :=
  ⟨t.rows ++ [(t.next, v)], t.next + 1, nodup_insert v t, lt_next_insert v t⟩

def updated (p : ℕ × ρ → Bool) (f : ρ → ρ) (x : ℕ × ρ) : ℕ × ρ := if p x then (x.1, f x.2) else x

@[simp] theorem fst_updated (p : ℕ × ρ → Bool) (f : ρ → ρ) (x : ℕ × ρ) :
    (updated p f x).1 = x.1 := by
  rw [updated]
  split <;> rfl

theorem nodup_update (p : ℕ × ρ → Bool) (f : ρ → ρ) (t : AutoTable ρ) :
    ((t.rows.map (updated p f)).map Prod.fst).Nodup := by
  rw [List.map_map]
  exact (List.map_congr_left fun x _ => fst_updated p f x) ▸ t.nodup

theorem lt_next_update (p : ℕ × ρ → Bool) (f : ρ → ρ) (t : AutoTable ρ) :
    ∀ x ∈ t.rows.map (updated p f), x.1 < t.next := by
  rintro x hx
  obtain ⟨y, hy, rfl⟩ := List.mem_map.mp hx
  rw [fst_updated]
  exact t.lt_next y hy

/-- `UPDATE … WHERE` -/
def update (p : ℕ × ρ → Bool) (f : ρ → ρ) (t : AutoTable ρ) : AutoTable ρ :=
  ⟨t.rows.map (updated p f), t.next, nodup_update p f t, lt_next_update p f t⟩

/-- `UPDATE … WHERE id = ?` -/
def updateRow (i : ℕ) (f : ρ → ρ) (t : AutoTable ρ) : AutoTable ρ := t.update (fun x => x.1 = i) f

theorem nodup_remove (p : ℕ × ρ → Bool) (t : AutoTable ρ) :
    ((t.rows.filter fun x => !p x).map Prod.fst).Nodup :=
  t.nodup.sublist (List.filter_sublist.map _)

theorem lt_next_remove (p : ℕ × ρ → Bool) (t : AutoTable ρ) :
    ∀ x ∈ t.rows.filter fun x => !p x, x.1 < t.next :=
  fun x hx => t.lt_next x (List.mem_of_mem_filter hx)

/-- `DELETE … WHERE` -/
def remove (p : ℕ × ρ → Bool) (t : AutoTable ρ) : AutoTable ρ :=
  ⟨t.rows.filter fun x => !p x, t.next, nodup_remove p t, lt_next_remove p t⟩

/-- `SELECT … WHERE`, of one row. -/
def find? (p : ρ → Bool) (t : AutoTable ρ) : Option (ℕ × ρ) := t.rows.find? fun x => p x.2

/-- `SELECT … WHERE id = ?` -/
def get? (i : ℕ) (t : AutoTable ρ) : Option ρ := (t.rows.find? fun x => x.1 = i).map Prod.snd

/-- `INSERT … ON CONFLICT DO UPDATE` -/
def upsert (q : ρ → Bool) (f : ρ → ρ) (v : ρ) (t : AutoTable ρ) : AutoTable ρ :=
  match t.find? q with
  | some x => t.updateRow x.1 f
  | none => t.insert v

/-! ### What is in a table -/

variable {t : AutoTable ρ} {p : ℕ × ρ → Bool} {f : ρ → ρ} {v w : ρ} {x y : ℕ × ρ} {i : ℕ}

@[simp] theorem mem_insert : x ∈ t.insert v ↔ x ∈ t ∨ x = (t.next, v) := by
  simp [mem_def, insert]

theorem mem_update : x ∈ t.update p f ↔ ∃ y ∈ t, updated p f y = x := List.mem_map

@[simp] theorem mem_remove : x ∈ t.remove p ↔ x ∈ t ∧ p x = false := by
  simp [mem_def, remove]

theorem eq_of_fst_eq (hx : x ∈ t) (hy : y ∈ t) (h : x.1 = y.1) : x = y :=
  List.inj_on_of_nodup_map t.nodup hx hy h

theorem eq_of_mem (hv : (i, v) ∈ t) (hw : (i, w) ∈ t) : v = w :=
  (Prod.mk.inj (eq_of_fst_eq hv hw rfl)).2

theorem mem_updateRow_of_ne (hx : x ∈ t) (h : x.1 ≠ i) : x ∈ t.updateRow i f :=
  mem_update.mpr ⟨x, hx, if_neg (by simpa using h)⟩

theorem mem_updateRow_self (hv : (i, v) ∈ t) : (i, f v) ∈ t.updateRow i f :=
  mem_update.mpr ⟨(i, v), hv, if_pos (by simp)⟩

theorem mem_updateRow (hx : x ∈ t.updateRow i f) :
    (x ∈ t ∧ x.1 ≠ i) ∨ ∃ v, (i, v) ∈ t ∧ x = (i, f v) := by
  obtain ⟨⟨j, v⟩, hy, rfl⟩ := mem_update.mp hx
  by_cases h : j = i
  · subst h
    exact .inr ⟨v, hy, if_pos (by simp)⟩
  · have heq : updated (fun x => decide (x.1 = i)) f (j, v) = (j, v) := if_neg (by simpa using h)
    rw [heq]
    exact .inl ⟨hy, h⟩

theorem find?_eq_some {q : ρ → Bool} (h : t.find? q = some x) : x ∈ t ∧ q x.2 = true := by
  rw [find?] at h
  exact ⟨List.mem_of_find?_eq_some h, by simpa using List.find?_some h⟩

theorem find?_eq_none {q : ρ → Bool} : t.find? q = none ↔ ∀ x ∈ t, q x.2 = false := by
  simp [find?, mem_def]

theorem isSome_find? {q : ρ → Bool} (hx : x ∈ t) (hq : q x.2 = true) :
    ∃ y, t.find? q = some y := by
  rcases hfind : t.find? q with _ | y
  · exact absurd (find?_eq_none.mp hfind x hx) (by simp [hq])
  · exact ⟨y, rfl⟩

theorem get?_eq_some : t.get? i = some v ↔ (i, v) ∈ t := by
  constructor
  · intro h
    obtain ⟨x, hx, rfl⟩ := Option.map_eq_some_iff.mp h
    have hi : x.1 = i := by simpa using List.find?_some hx
    exact hi ▸ List.mem_of_find?_eq_some hx
  · intro h
    rw [get?]
    rcases hfind : t.rows.find? fun x => x.1 = i with _ | y
    · exact absurd (List.find?_eq_none.mp hfind (i, v) h) (by simp)
    · have hi : y.1 = i := by simpa using List.find?_some hfind
      have heq : y = (i, v) := eq_of_fst_eq (List.mem_of_find?_eq_some hfind) h hi
      rw [hfind, heq, Option.map_some]

theorem find?_insert {q : ρ → Bool} (hnone : t.find? q = none) (hv : q v = true) :
    (t.insert v).find? q = some (t.next, v) := by
  rw [find?, insert, List.find?_append]
  rw [find?] at hnone
  simp [hnone, hv]

/-- **A row that is put in the place of another, or else added**: all others are as they were. -/
theorem exists_mem_upsert (q : ρ → Bool) (v : ρ) (t : AutoTable ρ) :
    ∃ i, (i, v) ∈ t.upsert q (fun _ => v) v ∧
      ∀ x, x.1 ≠ i → (x ∈ t.upsert q (fun _ => v) v ↔ x ∈ t) := by
  rw [upsert]
  rcases hfind : t.find? q with _ | ⟨i, w⟩
  · refine ⟨t.next, mem_insert.mpr (.inr rfl), fun x hx => mem_insert.trans (or_iff_left ?_)⟩
    rintro rfl
    exact hx rfl
  · refine ⟨i, mem_updateRow_self (find?_eq_some hfind).1, fun x hx =>
      ⟨fun h => ?_, fun h => mem_updateRow_of_ne h hx⟩⟩
    rcases mem_updateRow h with ⟨h, _⟩ | ⟨w, _, rfl⟩
    · exact h
    · exact absurd rfl hx

theorem forall_upsert {P : ρ → Prop} {q : ρ → Bool} (h : ∀ x ∈ t, P x.2) (hv : P v) :
    ∀ x ∈ t.upsert q (fun _ => v) v, P x.2 := by
  obtain ⟨i, hi, hothers⟩ := exists_mem_upsert q v t
  intro x hx
  by_cases hxi : x.1 = i
  · rw [eq_of_fst_eq hx hi hxi]
    exact hv
  · exact h x ((hothers x hxi).mp hx)

theorem update_eq_self (h : ∀ x ∈ t, p x = false) : t.update p f = t := by
  have hrows : t.rows.map (updated p f) = t.rows := by
    refine (List.map_congr_left fun x hx => ?_).trans (List.map_id _)
    rw [updated, h x hx]
    rfl
  obtain ⟨rows, next, hnodup, hlt⟩ := t
  rw [update]
  congr 1

theorem remove_eq_self (h : ∀ x ∈ t, p x = false) : t.remove p = t := by
  have hrows : t.rows.filter (fun x => !p x) = t.rows := by
    refine List.filter_eq_self.mpr fun x hx => ?_
    rw [h x hx]
    rfl
  obtain ⟨rows, next, hnodup, hlt⟩ := t
  rw [remove]
  congr 1

theorem find?_map_of_fixed {α : Type*} {q : α → Bool} {g : α → α} : ∀ {rows : List α},
    (∀ x ∈ rows, q (g x) = q x ∧ (q x = true → g x = x)) → (rows.map g).find? q = rows.find? q
  | [], _ => rfl
  | x :: rows, h => by
    obtain ⟨hx, hrows⟩ := List.forall_mem_cons.mp h
    rw [List.map_cons, List.find?_cons, List.find?_cons, hx.1]
    rcases hq : q x with _ | _
    · exact find?_map_of_fixed hrows
    · rw [hx.2 hq]

/-- **A row that is put in the place of another, or else added**, changes nothing for what looks
for neither. -/
theorem find?_upsert_of_not {q q' : ρ → Bool} (hq : ∀ x ∈ t, q x.2 = true → q' x.2 = false)
    (hv : q' v = false) : (t.upsert q (fun _ => v) v).find? q' = t.find? q' := by
  rw [upsert]
  rcases hfind : t.find? q with _ | ⟨i, w⟩
  · show List.find? _ (t.rows ++ [(t.next, v)]) = _
    rw [List.find?_append]
    simp [hv, find?]
  · obtain ⟨hw, hqw⟩ := find?_eq_some hfind
    refine find?_map_of_fixed fun x hx => ?_
    by_cases hi : x.1 = i
    · obtain rfl : x = (i, w) := eq_of_fst_eq hx hw hi
      rw [updated, if_pos (by simp), hv, hq _ hw hqw]
      exact ⟨rfl, by rintro ⟨⟩⟩
    · rw [updated, if_neg (by simpa using hi)]
      exact ⟨rfl, fun _ => rfl⟩

/-! ### Columns that are `UNIQUE` -/

/-- **A `UNIQUE` column**: no two rows have the same value in it. -/
def UniqueBy (key : ρ → Option κ) (t : AutoTable ρ) : Prop :=
  ∀ x ∈ t, ∀ y ∈ t, ∀ k, key x.2 = some k → key y.2 = some k → x = y

variable {key : ρ → Option κ}

theorem UniqueBy.remove (h : UniqueBy key t) : UniqueBy key (t.remove p) :=
  fun x hx y hy => h x (mem_remove.mp hx).1 y (mem_remove.mp hy).1

theorem UniqueBy.insert (h : UniqueBy key t)
    (hv : ∀ k, key v = some k → ∀ x ∈ t, key x.2 ≠ some k) : UniqueBy key (t.insert v) := by
  rintro x hx y hy k hkx hky
  rcases mem_insert.mp hx with hx | rfl <;> rcases mem_insert.mp hy with hy | rfl
  · exact h x hx y hy k hkx hky
  · exact absurd hkx (hv k hky x hx)
  · exact absurd hky (hv k hkx y hy)
  · rfl

theorem UniqueBy.update (h : UniqueBy key t) (hf : ∀ x ∈ t, p x = true → key (f x.2) = key x.2) :
    UniqueBy key (t.update p f) := by
  have hkey {z : ℕ × ρ} (hz : z ∈ t) : key (updated p f z).2 = key z.2 := by
    rw [updated]
    split
    · exact hf z hz ‹_›
    · rfl
  rintro x hx y hy k hkx hky
  obtain ⟨a, ha, rfl⟩ := mem_update.mp hx
  obtain ⟨b, hb, rfl⟩ := mem_update.mp hy
  rw [hkey ha] at hkx
  rw [hkey hb] at hky
  rw [h a ha b hb k hkx hky]

theorem UniqueBy.updateRow (h : UniqueBy key t)
    (hv : ∀ v, (i, v) ∈ t → ∀ k, key (f v) = some k → ∀ x ∈ t, key x.2 = some k → x.1 = i) :
    UniqueBy key (t.updateRow i f) := by
  rintro x hx y hy k hkx hky
  rcases mem_updateRow hx with ⟨hx, hxi⟩ | ⟨a, ha, rfl⟩ <;>
    rcases mem_updateRow hy with ⟨hy, hyi⟩ | ⟨b, hb, rfl⟩
  · exact h x hx y hy k hkx hky
  · exact absurd (hv b hb k hky x hx hkx) hxi
  · exact absurd (hv a ha k hkx y hy hky) hyi
  · rw [eq_of_mem ha hb]

end AutoTable

end EmeraldExchange
