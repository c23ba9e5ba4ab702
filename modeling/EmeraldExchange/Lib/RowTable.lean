import Mathlib.Data.List.Basic
import Mathlib.Order.BoundedOrder.Lattice
import Mathlib.Order.Nat

/-!
# Tables with rowids, and their fingerprints

A new row has the greatest rowid of the table, plus one. The rows that are last may go and come
again under the same numbers, and that is what makes the *fingerprint* of a table – the number of
its rows, the greatest rowid, and the greatest value of a column of stamps, if one is asked for –
less than the table.

A fingerprint that was read is overtaken when no later state of the table can have it again, as long
as the writes stay *ahead* of it. There are two notions, with a lemma for each kind of write.

* `RowTable.Outgrown`, without a column: the table has a row beyond the ones that
  were counted, or fewer rows. A write stays ahead when what it leaves reaches beyond them
  (`RowTable.Reaches`).
* `RowTable.Overwritten`, with a column of stamps: too few rows are left of those
  that were counted. A write stays ahead when its stamp is greater than the one that was read.

In both a write that stays ahead leaves the table as it was or moves the fingerprint for good.
-/

namespace EmeraldExchange

/-- The greatest of a list, and the least value where there is none. -/
def greatest {τ : Type*} [LinearOrder τ] [OrderBot τ] (xs : List τ) : τ := xs.foldr max ⊥

section Greatest

variable {τ : Type*} [LinearOrder τ] [OrderBot τ] {xs ys : List τ} {a : τ}

theorem greatest_cons : greatest (a :: xs) = max a (greatest xs) := rfl

theorem le_greatest : ∀ {xs : List τ}, a ∈ xs → a ≤ greatest xs
  | b :: xs, h => by
    rw [greatest_cons]
    rcases List.mem_cons.mp h with rfl | h
    · exact le_max_left _ _
    · exact (le_greatest h).trans (le_max_right _ _)

theorem greatest_append : greatest (xs ++ ys) = max (greatest xs) (greatest ys) := by
  induction xs with
  | nil => exact (max_eq_right bot_le).symm
  | cons b xs ih => rw [List.cons_append, greatest_cons, greatest_cons, ih, max_assoc]

theorem greatest_mem : ∀ {xs : List τ}, xs ≠ [] → greatest xs ∈ xs
  | [b], _ => by simp [greatest]
  | b :: c :: xs, _ => by
    rw [greatest_cons]
    rcases le_total (greatest (c :: xs)) b with h | h
    · rw [max_eq_left h]
      exact List.mem_cons_self
    · rw [max_eq_right h]
      exact List.mem_cons_of_mem _ (greatest_mem (List.cons_ne_nil _ _))

end Greatest

/-- **A table with rowids**, in the order of the rowids. -/
abbrev RowTable (ρ : Type*) := List (ℕ × ρ)

namespace RowTable

variable {ρ σ τ : Type*}

/-- `COALESCE(MAX(rowid), 0)` -/
def maxRowid (t : RowTable ρ) : ℕ := greatest (t.map Prod.fst)

/-- `DELETE … WHERE` -/
def remove (p : ρ → Bool) (t : RowTable ρ) : RowTable ρ := t.filter fun x => !p x.2

/-- `INSERT`, of one row after another. -/
def append : List ρ → RowTable ρ → RowTable ρ
  | [], t => t
  | v :: vs, t => append vs (t ++ [(t.maxRowid + 1, v)])

/-- The rows that pass a test go and others come. -/
def rewrite (p : ρ → Bool) (vs : List ρ) (t : RowTable ρ) : RowTable ρ := append vs (remove p t)

/-- `INSERT … ON CONFLICT DO UPDATE`: a row that is updated keeps its rowid. -/
def upsert (p : ρ → Bool) (v : ρ) (t : RowTable ρ) : RowTable ρ :=
  if t.any fun x => p x.2 then t.map fun x => if p x.2 then (x.1, v) else x else append [v] t

/-- `UPDATE` of every row. -/
def update (f : ρ → σ) (t : RowTable ρ) : RowTable σ := t.map fun x => (x.1, f x.2)

/-! ### The greatest rowid -/

variable {t : RowTable ρ} {p : ρ → Bool} {v : ρ} {vs : List ρ}

theorem le_maxRowid {x : ℕ × ρ} (h : x ∈ t) : x.1 ≤ t.maxRowid :=
  le_greatest (List.mem_map_of_mem h)

theorem exists_maxRowid (h : 0 < t.maxRowid) : ∃ x ∈ t, x.1 = t.maxRowid := by
  have hne : t.map Prod.fst ≠ [] := by
    rintro heq
    rw [maxRowid, heq] at h
    exact absurd h (Nat.lt_irrefl 0)
  obtain ⟨x, hx, heq⟩ := List.mem_map.mp (greatest_mem hne)
  exact ⟨x, hx, heq⟩

@[simp] theorem maxRowid_update (f : ρ → σ) : (update f t).maxRowid = t.maxRowid := by
  simp [maxRowid, update, Function.comp_def]

theorem maxRowid_concat (n : ℕ) : maxRowid (t ++ [(n, v)]) = max t.maxRowid n := by
  rw [maxRowid, List.map_append, greatest_append]
  simp [maxRowid, greatest]

@[simp] theorem maxRowid_append : ∀ {vs : List ρ} {t : RowTable ρ},
    (append vs t).maxRowid = t.maxRowid + vs.length
  | [], _ => rfl
  | v :: vs, t => by
    rw [append, maxRowid_append, maxRowid_concat, List.length_cons]
    omega

theorem maxRowid_rewrite :
    (rewrite p vs t).maxRowid = (remove p t).maxRowid + vs.length := maxRowid_append

@[simp] theorem rewrite_nil : rewrite p [] t = remove p t := rfl

theorem mem_append : ∀ {vs : List ρ} {t : RowTable ρ} {x : ℕ × ρ}, x ∈ append vs t →
    x ∈ t ∨ x.2 ∈ vs
  | [], _, _, h => .inl h
  | v :: vs, t, x, h => by
    have h' : x ∈ append vs (t ++ [(t.maxRowid + 1, v)]) := h
    rcases mem_append h' with h | h
    · rcases List.mem_append.mp h with h | h
      · exact .inl h
      · rw [List.mem_singleton.mp h]
        exact .inr List.mem_cons_self
    · exact .inr (List.mem_cons_of_mem _ h)

theorem mem_remove {x : ℕ × ρ} : x ∈ remove p t ↔ x ∈ t ∧ p x.2 = false := by
  simp [remove]

theorem mem_rewrite {x : ℕ × ρ} (h : x ∈ rewrite p vs t) :
    (x ∈ t ∧ p x.2 = false) ∨ x.2 ∈ vs :=
  (mem_append h).imp mem_remove.mp id

theorem length_remove_le : (remove p t).length ≤ t.length := List.length_filter_le _ _

theorem remove_eq_self (h : ∀ x ∈ t, p x.2 = false) : remove p t = t :=
  List.filter_eq_self.mpr fun x hx => by simp [h x hx]

theorem length_remove_lt {x : ℕ × ρ} (hx : x ∈ t) (hp : p x.2 = true) :
    (remove p t).length < t.length :=
  List.length_filter_lt_length_iff_exists.mpr ⟨x, hx, by simp [hp]⟩

theorem upsert_cases (p : ρ → Bool) (v : ρ) (t : RowTable ρ) :
    ((∃ x ∈ t, p x.2 = true) ∧
        upsert p v t = t.map fun x => if p x.2 then (x.1, v) else x) ∨
      (∀ x ∈ t, p x.2 = false) ∧ upsert p v t = t ++ [(t.maxRowid + 1, v)] := by
  by_cases h : t.any fun x => p x.2
  · exact .inl ⟨List.any_eq_true.mp h, if_pos h⟩
  · refine .inr ⟨fun x hx => ?_, if_neg h⟩
    simpa using fun hp => h (List.any_eq_true.mpr ⟨x, hx, hp⟩)

theorem maxRowid_map_upsert :
    maxRowid (t.map fun x => if p x.2 then (x.1, v) else x) = t.maxRowid := by
  rw [maxRowid, List.map_map, maxRowid]
  congr 1
  refine List.map_congr_left fun x _ => ?_
  by_cases hp : p x.2 <;> simp [hp]

/-! ### Fingerprints -/

/-- What is read of a table: `COUNT(*)`, `MAX(rowid)`, and `MAX` of a column when asked. -/
structure Generation (τ : Type*) where
  count : ℕ
  maxRowid : ℕ
  ts : Option τ
  deriving DecidableEq

variable {g : Generation τ} {c : ρ → τ}

/-- **The fingerprint of a table.** -/
def generation [LinearOrder τ] [OrderBot τ] (column : Option (ρ → τ)) (t : RowTable ρ) :
    Generation τ :=
  ⟨t.length, t.maxRowid, column.map fun c => greatest (t.map fun x => c x.2)⟩

/-! #### Without a column -/

/-- The table has a row beyond those that were counted, or fewer. -/
def Outgrown (g : Generation τ) (t : RowTable ρ) : Prop :=
  g.maxRowid < t.maxRowid ∨ t.length < g.count

theorem Outgrown.ne [LinearOrder τ] [OrderBot τ] {column : Option (ρ → τ)}
    (h : Outgrown g t) : generation column t ≠ g := by
  rintro rfl
  exact h.elim (Nat.lt_irrefl _) (Nat.lt_irrefl _)

/-- **A write stays ahead** of the rowid `r`: if it adds rows, or takes rows beyond `r` away, it
leaves a row beyond `r`. -/
def Reaches (r : ℕ) (p : ρ → Bool) (vs : List ρ) (t : RowTable ρ) : Prop :=
  (vs ≠ [] ∨ ∃ x ∈ t, p x.2 = true ∧ r < x.1) → r < (remove p t).maxRowid + vs.length

instance (r : ℕ) (p : ρ → Bool) (vs : List ρ) (t : RowTable ρ) : Decidable (Reaches r p vs t) :=
  have : Decidable (vs ≠ []) := decidable_of_iff (vs.isEmpty = false) (by cases vs <;> simp)
  inferInstanceAs (Decidable (_ → _))

/-- A row beyond `r` is still there after a removal that stays ahead of it. -/
theorem Reaches.maxRowid_remove {r : ℕ} (hr : Reaches r p [] t) (h : r < t.maxRowid) :
    r < (remove p t).maxRowid := by
  obtain ⟨x, hx, heq⟩ := exists_maxRowid (Nat.zero_lt_of_lt h)
  by_cases hp : p x.2
  · exact hr (.inr ⟨x, hx, hp, heq ▸ h⟩)
  · exact (heq ▸ h : r < x.1).trans_le (le_maxRowid (mem_remove.mpr ⟨hx, by simpa using hp⟩))

theorem Outgrown.rewrite (h : Outgrown g t) (hr : Reaches g.maxRowid p vs t) :
    Outgrown g (rewrite p vs t) := by
  by_cases hvs : vs = []
  · subst hvs
    rcases h with h | h
    · exact .inl (hr.maxRowid_remove h)
    · exact .inr (length_remove_le.trans_lt h)
  · refine .inl ?_
    rw [maxRowid_rewrite]
    exact hr (.inl hvs)

theorem rewrite_eq_or_outgrown [LinearOrder τ] [OrderBot τ] {column : Option (ρ → τ)}
    (h : generation column t = g) (hr : Reaches g.maxRowid p vs t) :
    rewrite p vs t = t ∨ Outgrown g (rewrite p vs t) := by
  by_cases hvs : vs = []
  · subst hvs
    by_cases hp : ∃ x ∈ t, p x.2 = true
    · obtain ⟨x, hx, hp⟩ := hp
      refine .inr (.inr ?_)
      rw [← h]
      exact length_remove_lt hx hp
    · refine .inl (remove_eq_self fun x hx => ?_)
      simpa using fun hpx => hp ⟨x, hx, hpx⟩
  · refine .inr (.inl ?_)
    rw [maxRowid_rewrite]
    exact hr (.inl hvs)

/-! #### With a column -/

section Column

variable [LinearOrder τ] [OrderBot τ]

def Generation.newest (g : Generation τ) : τ := g.ts.getD ⊥

/-- A row may be one of those that were counted, as it was then. -/
def counted (g : Generation τ) (c : ρ → τ) (x : ℕ × ρ) : Bool :=
  decide (x.1 ≤ g.maxRowid) && decide (c x.2 ≤ g.newest)

/-- Too few rows are left of those that were counted, or there is one beyond them, or none has the
stamp that was the greatest. -/
def Overwritten (g : Generation τ) (c : ρ → τ) (t : RowTable ρ) : Prop :=
  t.countP (counted g c) < g.count ∨ g.maxRowid < t.maxRowid ∨
    (0 < g.count ∧ ∀ x ∈ t, c x.2 ≠ g.newest)

theorem counted_of_generation (h : generation (some c) t = g) : ∀ x ∈ t, counted g c x = true := by
  subst h
  rintro x hx
  rw [counted, Bool.and_eq_true, decide_eq_true_eq, decide_eq_true_eq]
  exact ⟨le_maxRowid hx, le_greatest (List.mem_map.mpr ⟨x, hx, rfl⟩)⟩

theorem count_of_generation {column : Option (ρ → τ)} (h : generation column t = g) :
    g.count = t.length := h ▸ rfl

theorem Overwritten.ne (h : Overwritten g c t) : generation (some c) t ≠ g := by
  rintro heq
  rcases h with h | h | ⟨hpos, h⟩
  · rw [List.countP_eq_length.mpr (counted_of_generation heq), count_of_generation heq] at h
    exact Nat.lt_irrefl _ h
  · subst heq
    exact Nat.lt_irrefl _ h
  · subst heq
    have hne : t.map (fun x => c x.2) ≠ [] := by
      rintro hnil
      rw [List.map_eq_nil_iff.mp hnil] at hpos
      exact Nat.lt_irrefl _ hpos
    obtain ⟨x, hx, heq⟩ := List.mem_map.mp (greatest_mem hne)
    exact h x hx heq

theorem counted_of_lt {n : ℕ} (hv : g.newest < c v) : counted g c (n, v) = false := by
  simp [counted, hv]

theorem Overwritten.upsert (h : Overwritten g c t) (hv : g.newest < c v) :
    Overwritten g c (upsert p v t) := by
  rcases upsert_cases p v t with ⟨-, heq⟩ | ⟨-, heq⟩ <;> rw [heq]
  · rcases h with h | h | ⟨hpos, h⟩
    · refine .inl (lt_of_le_of_lt ?_ h)
      rw [List.countP_map]
      refine List.countP_mono_left fun x _ hx => ?_
      by_cases hp : p x.2
      · simp [hp, counted_of_lt hv] at hx
      · simpa [hp] using hx
    · exact .inr (.inl (h.trans_eq maxRowid_map_upsert.symm))
    · refine .inr (.inr ⟨hpos, fun x hx => ?_⟩)
      obtain ⟨y, hy, rfl⟩ := List.mem_map.mp hx
      by_cases hp : p y.2
      · simpa [hp] using hv.ne'
      · simpa [hp] using h y hy
  · rcases h with h | h | ⟨hpos, h⟩
    · refine .inl ?_
      rwa [List.countP_append, List.countP_singleton, if_neg (by simp [counted_of_lt hv])]
    · refine .inr (.inl ?_)
      rw [maxRowid_concat]
      exact h.trans_le (le_max_left _ _)
    · refine .inr (.inr ⟨hpos, fun x hx => ?_⟩)
      rcases List.mem_append.mp hx with hx | hx
      · exact h x hx
      · rw [List.mem_singleton.mp hx]
        exact hv.ne'

theorem overwritten_upsert (h : generation (some c) t = g) (hv : g.newest < c v) :
    Overwritten g c (upsert p v t) := by
  rcases upsert_cases p v t with ⟨⟨x, hx, hp⟩, heq⟩ | ⟨-, heq⟩ <;> rw [heq]
  · -- one of the rows that were counted is stamped later now
    refine .inl (lt_of_le_of_ne ?_ fun hall => ?_)
    · rw [count_of_generation h]
      exact List.countP_le_length.trans_eq (List.length_map _)
    · rw [count_of_generation h,
        ← List.length_map fun x : ℕ × ρ => if p x.2 then (x.1, v) else x] at hall
      have hx' := List.countP_eq_length.mp hall _ (List.mem_map_of_mem hx)
      rw [if_pos hp, counted_of_lt hv] at hx'
      exact Bool.false_ne_true hx'
  · refine .inr (.inl ?_)
    rw [maxRowid_concat, ← h]
    exact (Nat.lt_succ_self _).trans_le (le_max_right _ _)

theorem Overwritten.remove (h : Overwritten g c t) (hr : Reaches g.maxRowid p [] t) :
    Overwritten g c (remove p t) := by
  rcases h with h | h | ⟨hpos, h⟩
  · exact .inl (lt_of_le_of_lt List.filter_sublist.countP_le h)
  · exact .inr (.inl (hr.maxRowid_remove h))
  · exact .inr (.inr ⟨hpos, fun x hx => h x (mem_remove.mp hx).1⟩)

theorem remove_eq_or_overwritten (h : generation (some c) t = g) :
    remove p t = t ∨ Overwritten g c (remove p t) := by
  by_cases hp : ∃ x ∈ t, p x.2 = true
  · obtain ⟨x, hx, hp⟩ := hp
    refine .inr (.inl (List.countP_le_length.trans_lt ?_))
    rw [count_of_generation h]
    exact length_remove_lt hx hp
  · refine .inl (remove_eq_self fun x hx => ?_)
    simpa using fun hpx => hp ⟨x, hx, hpx⟩

theorem overwritten_update {f : ρ → ρ} (hf : ∀ v, c (f v) = ⊥) (hpos : 0 < g.count)
    (hne : g.newest ≠ ⊥) : Overwritten g c (update f t) := by
  refine .inr (.inr ⟨hpos, fun x hx => ?_⟩)
  obtain ⟨y, -, rfl⟩ := List.mem_map.mp hx
  rw [hf]
  exact hne.symm

theorem Overwritten.update {f : ρ → ρ} (h : Overwritten g c t) (hf : ∀ v, c (f v) = ⊥)
    (hne : 0 < g.count → g.newest ≠ ⊥) : Overwritten g c (update f t) := by
  by_cases hpos : 0 < g.count
  · exact overwritten_update hf hpos (hne hpos)
  · rcases h with h | h | ⟨hpos', -⟩
    · exact absurd (Nat.zero_lt_of_lt h) hpos
    · exact .inr (.inl (h.trans_eq (maxRowid_update f).symm))
    · exact absurd hpos' hpos

theorem update_eq_or_overwritten {f : ρ → ρ} (h : generation (some c) t = g)
    (hf : ∀ v, c (f v) = ⊥) (hne : 0 < g.count → g.newest ≠ ⊥) :
    update f t = t ∨ Overwritten g c (update f t) := by
  by_cases hpos : 0 < g.count
  · exact .inr (overwritten_update hf hpos (hne hpos))
  · rw [count_of_generation h] at hpos
    rw [List.length_eq_zero_iff.mp (Nat.eq_zero_of_not_pos hpos)]
    exact .inl rfl

end Column

/-! #### The rows under a projection -/

theorem update_append (f : ρ → σ) : ∀ (vs : List ρ) (t : RowTable ρ),
    update f (append vs t) = append (vs.map f) (update f t)
  | [], _ => rfl
  | v :: vs, t => by
    rw [append, update_append f vs, List.map_cons, append, maxRowid_update]
    congr 1
    simp [update]

theorem update_remove (f : ρ → σ) {q : σ → Bool} (h : ∀ v, p v = q (f v)) :
    update f (remove p t) = remove q (update f t) := by
  simp [update, remove, List.filter_map, Function.comp_def, h]

theorem update_rewrite (f : ρ → σ) (vs : List ρ) {q : σ → Bool} (h : ∀ v, p v = q (f v)) :
    update f (rewrite p vs t) = rewrite q (vs.map f) (update f t) := by
  rw [rewrite, update_append, update_remove f h, rewrite]

theorem Reaches.update {r : ℕ} (hr : Reaches r p vs t) (f : ρ → σ) {q : σ → Bool}
    (h : ∀ v, p v = q (f v)) : Reaches r q (vs.map f) (RowTable.update f t) := by
  rintro hne
  rw [← update_remove f h, maxRowid_update, List.length_map]
  refine hr (hne.imp (fun hvs hnil => hvs (by rw [hnil, List.map_nil])) ?_)
  rintro ⟨x, hx, hq, hlt⟩
  obtain ⟨y, hy, rfl⟩ := List.mem_map.mp hx
  exact ⟨y, hy, (h y.2).trans hq, hlt⟩

theorem update_upsert (f : ρ → σ) (h : ∀ w, p w = true → f w = f v) :
    update f (upsert p v t) = update f t ∨
      (t.any fun x => p x.2) = false ∧
        update f (upsert p v t) = append [f v] (update f t) := by
  rcases upsert_cases p v t with ⟨-, heq⟩ | ⟨hnone, heq⟩
  · refine .inl ?_
    rw [heq, update, List.map_map, update]
    refine List.map_congr_left fun x _ => ?_
    by_cases hp : p x.2
    · simp [hp, h x.2 hp]
    · simp [hp]
  · refine .inr ⟨List.any_eq_false.mpr fun x hx => by simp [hnone x hx], ?_⟩
    rw [heq, append, append, maxRowid_update]
    simp [update]

end RowTable

/-! ### What is known under a fingerprint -/

/-- **A fingerprint of a state**, with the states that have overtaken one that was read. -/
structure Watch (σ γ : Type*) where
  read : σ → γ
  overtaken : γ → σ → Prop
  ne_of_overtaken : ∀ {g s}, overtaken g s → read s ≠ g

namespace Watch

variable {σ γ : Type*} {w : Watch σ γ} {g : γ} {P Q : σ → Prop} {s t : σ}

/-- **What is filed under a fingerprint**: either it is overtaken, or the state still has it and
the property. -/
def Holds (w : Watch σ γ) (g : γ) (P : σ → Prop) (s : σ) : Prop :=
  w.overtaken g s ∨ (w.read s = g ∧ P s)

theorem holds_read (h : P s) : w.Holds (w.read s) P s := .inr ⟨rfl, h⟩

/-- What is read later is filed under the fingerprint all the same: were the state another one by
now, the fingerprint would be overtaken. -/
theorem Holds.and (h : w.Holds g P s) (hQ : Q s) : w.Holds g (fun s => P s ∧ Q s) s :=
  h.imp id fun ⟨hg, hP⟩ => ⟨hg, hP, hQ⟩

theorem Holds.imp (h : w.Holds g P s) (hPQ : ∀ s, P s → Q s) : w.Holds g Q s :=
  Or.imp id (fun ⟨hg, hP⟩ => ⟨hg, hPQ s hP⟩) h

/-- **A hit**: what is filed under the fingerprint of the state is true of the state. -/
theorem Holds.hit (h : w.Holds g P s) (hg : w.read s = g) : P s :=
  h.elim (fun ho => absurd hg (w.ne_of_overtaken ho)) And.right

/-- A write that leaves the state as it is or overtakes what was read. -/
def Ahead (w : Watch σ γ) (g : γ) (s t : σ) : Prop :=
  (w.overtaken g s → w.overtaken g t) ∧ (w.read s = g → t = s ∨ w.overtaken g t)

theorem Ahead.refl : w.Ahead g s s := ⟨id, fun _ => .inl rfl⟩

theorem Ahead.trans {u : σ} (h : w.Ahead g s t) (h' : w.Ahead g t u) : w.Ahead g s u := by
  refine ⟨fun ho => h'.1 (h.1 ho), fun hg => ?_⟩
  rcases h.2 hg with rfl | ho
  · exact h'.2 hg
  · exact .inr (h'.1 ho)

/-- **A write that stays ahead keeps what is filed.** -/
theorem Holds.write (h : w.Holds g P s) (hw : w.Ahead g s t) : w.Holds g P t := by
  rcases h with h | ⟨hg, hP⟩
  · exact .inl (hw.1 h)
  · rcases hw.2 hg with rfl | ho
    · exact .inr ⟨hg, hP⟩
    · exact .inl ho

def comap {τ : Type*} (w : Watch σ γ) (f : τ → σ) : Watch τ γ where
  read s := w.read (f s)
  overtaken g s := w.overtaken g (f s)
  ne_of_overtaken := w.ne_of_overtaken

theorem Ahead.comap {τ : Type*} {f : τ → σ} {s t : τ} (h : w.Ahead g (f s) (f t))
    (hrest : f t = f s → t = s) : (w.comap f).Ahead g s t :=
  ⟨h.1, fun hg => (h.2 hg).imp hrest id⟩

/-- The fingerprints of two parts of a state, read one after the other. -/
def prod {τ δ : Type*} (w : Watch σ γ) (v : Watch τ δ) : Watch (σ × τ) (γ × δ) where
  read s := (w.read s.1, v.read s.2)
  overtaken g s := w.overtaken g.1 s.1 ∨ v.overtaken g.2 s.2
  ne_of_overtaken := by
    rintro g s h rfl
    exact h.elim (fun h => w.ne_of_overtaken h rfl) fun h => v.ne_of_overtaken h rfl

theorem Ahead.prod {τ δ : Type*} {v : Watch τ δ} {d : δ} {s' t' : τ} (h : w.Ahead g s t)
    (h' : v.Ahead d s' t') : (w.prod v).Ahead (g, d) (s, s') (t, t') := by
  refine ⟨Or.imp h.1 h'.1, fun heq => ?_⟩
  obtain ⟨rfl, rfl⟩ := Prod.mk.inj heq
  rcases h.2 rfl with rfl | ho
  · rcases h'.2 rfl with rfl | ho'
    · exact .inl rfl
    · exact .inr (.inr ho')
  · exact .inr (.inl ho)

theorem Holds.prod_read {τ δ : Type*} {v : Watch τ δ} {s' : τ}
    (h : w.Holds g (fun _ => True) s) :
    (w.prod v).Holds (g, v.read s') (fun _ => True) (s, s') := by
  rcases h with h | ⟨rfl, -⟩
  · exact .inl (.inl h)
  · exact .inr ⟨rfl, trivial⟩

end Watch

namespace RowTable

variable {ρ τ : Type*} [LinearOrder τ] [OrderBot τ]

def watchRows : Watch (RowTable ρ) (Generation τ) where
  read := generation none
  overtaken := Outgrown
  ne_of_overtaken := Outgrown.ne

def watchColumn (c : ρ → τ) : Watch (RowTable ρ) (Generation τ) where
  read := generation (some c)
  overtaken g t := Overwritten g c t
  ne_of_overtaken := Overwritten.ne

variable {t : RowTable ρ} {p : ρ → Bool} {v : ρ} {vs : List ρ} {g : Generation τ} {c : ρ → τ}

theorem ahead_rewrite (h : Reaches g.maxRowid p vs t) : watchRows.Ahead g t (rewrite p vs t) :=
  ⟨fun ho => ho.rewrite h, fun hg => rewrite_eq_or_outgrown hg h⟩

theorem ahead_append (h : g.maxRowid ≤ t.maxRowid) : watchRows.Ahead g t (append [v] t) := by
  have heq : rewrite (fun _ => false) [v] t = append [v] t := by
    rw [rewrite, remove_eq_self fun _ _ => rfl]
  rw [← heq]
  refine ahead_rewrite fun _ => ?_
  rw [remove_eq_self fun _ _ => rfl, List.length_singleton]
  exact Nat.lt_succ_of_le h

theorem ahead_upsert (h : g.newest < c v) : (watchColumn c).Ahead g t (upsert p v t) :=
  ⟨fun ho => ho.upsert h, fun hg => .inr (overwritten_upsert hg h)⟩

theorem ahead_foldl_upsert {α : Type*} {p : α → ρ → Bool} {row : α → ρ} :
    ∀ {es : List α} {t : RowTable ρ}, (∀ e ∈ es, g.newest < c (row e)) →
      (watchColumn c).Ahead g t (es.foldl (fun t e => upsert (p e) (row e) t) t)
  | [], _, _ => .refl
  | _ :: _, _, h => (ahead_upsert (h _ List.mem_cons_self)).trans
      (ahead_foldl_upsert fun e he => h e (List.mem_cons_of_mem _ he))

theorem ahead_remove (h : Reaches g.maxRowid p [] t) :
    (watchColumn c).Ahead g t (remove p t) :=
  ⟨fun ho => ho.remove h, fun hg => remove_eq_or_overwritten hg⟩

theorem ahead_update {f : ρ → ρ} (hf : ∀ v, c (f v) = ⊥) (h : 0 < g.count → g.newest ≠ ⊥) :
    (watchColumn c).Ahead g t (update f t) :=
  ⟨fun ho => ho.update hf h, fun hg => update_eq_or_overwritten hg hf h⟩

end RowTable

end EmeraldExchange
