import Mathlib.Data.List.Sort
import Mathlib.Data.List.TakeWhile

/-!
# The greatest of a list

The `k` greatest values of a list are found in one pass, with a descending list of at most `k`
values: a value that is greater than the last of them is put where it belongs, and the last is
dropped. What is found is the beginning of the descending list of all values
(`topK_eq_take`), so that the order in which they come does not matter, nor
do values that are not above the others when there are `k` others.
-/

namespace EmeraldExchange.TopK

variable {α : Type*} [LinearOrder α]

/-- Put a value behind those of a descending list that are not less. -/
def insertDesc (v : α) (top : List α) : List α :=
  top.takeWhile (v ≤ ·) ++ v :: top.dropWhile (v ≤ ·)

def push (k : ℕ) (top : List α) (v : α) : List α :=
  if top.length < k ∨ top[k - 1]?.any (· < v) then (insertDesc v top).take k else top

/-- **The `k` greatest values**, in descending order. -/
def topK (k : ℕ) (l : List α) : List α := l.foldl (push k) []

def sortDesc (l : List α) : List α := l.insertionSort (· ≥ ·)

/-! ### Insertion -/

theorem insertDesc_cons (v b : α) (l : List α) :
    insertDesc v (b :: l) = if v ≤ b then b :: insertDesc v l else v :: b :: l := by
  simp only [insertDesc, List.takeWhile_cons, List.dropWhile_cons, decide_eq_true_eq]
  split_ifs <;> rfl

theorem perm_insertDesc (v : α) (l : List α) : (insertDesc v l).Perm (v :: l) := by
  refine List.perm_middle.trans ?_
  rw [List.takeWhile_append_dropWhile]

/-- **What is descending stays so.** -/
theorem pairwise_insertDesc (v : α) : ∀ {l : List α}, l.Pairwise (· ≥ ·) →
    (insertDesc v l).Pairwise (· ≥ ·)
  | [], _ => List.pairwise_singleton _ v
  | b :: l, h => by
    obtain ⟨hb, hl⟩ := List.pairwise_cons.mp h
    rw [insertDesc_cons]
    split_ifs with hv
    · refine List.pairwise_cons.mpr ⟨fun c hc => ?_, pairwise_insertDesc v hl⟩
      rcases List.mem_cons.mp ((perm_insertDesc v l).mem_iff.mp hc) with rfl | hc
      · exact hv
      · exact hb c hc
    · have hlt : b < v := not_le.mp hv
      refine List.pairwise_cons.mpr ⟨fun c hc => ?_, h⟩
      rcases List.mem_cons.mp hc with rfl | hc
      · exact hlt.le
      · exact (hb c hc).trans hlt.le

theorem take_insertDesc_take (v : α) : ∀ (k : ℕ) (l : List α),
    (insertDesc v (l.take k)).take k = (insertDesc v l).take k
  | 0, _ => rfl
  | _ + 1, [] => rfl
  | k + 1, b :: l => by
    rw [List.take_succ_cons, insertDesc_cons, insertDesc_cons]
    split_ifs
    · rw [List.take_succ_cons, List.take_succ_cons, take_insertDesc_take v k l]
    · rcases k with _ | k
      · rfl
      · rw [List.take_succ_cons, List.take_succ_cons, List.take_succ_cons, List.take_succ_cons,
          List.take_take, Nat.min_eq_left k.le_succ]

/-- What does not exceed the first `k` leaves them as they are. -/
theorem take_insertDesc_of_le {v : α} : ∀ {k : ℕ} {l : List α}, k ≤ l.length →
    (∀ x ∈ l.take k, v ≤ x) → (insertDesc v l).take k = l.take k
  | 0, _, _, _ => rfl
  | k + 1, b :: l, hk, h => by
    rw [List.take_succ_cons] at h
    obtain ⟨hb, hl⟩ := List.forall_mem_cons.mp h
    rw [insertDesc_cons, if_pos hb, List.take_succ_cons, List.take_succ_cons,
      take_insertDesc_of_le (Nat.le_of_succ_le_succ hk) hl]

/-! ### The pass -/

variable {k : ℕ}

/-- **One more value, where the first `k` of a descending list are kept.** -/
theorem push_take (hk : 0 < k) {l : List α} (h : l.Pairwise (· ≥ ·)) (v : α) :
    push k (l.take k) v = (insertDesc v l).take k := by
  rw [push]
  split_ifs with hpush
  · exact take_insertDesc_take v k l
  · rw [not_or, not_lt, List.length_take, Nat.le_min] at hpush
    obtain ⟨⟨_, hlen⟩, hlast⟩ := hpush
    refine (take_insertDesc_of_le hlen fun x hx => ?_).symm
    -- the last that is kept is the least of them
    have hpos : k - 1 < (l.take k).length := by rw [List.length_take]; omega
    obtain ⟨i, hi, rfl⟩ := List.mem_iff_getElem.mp hx
    have hle : v ≤ (l.take k)[k - 1] := by
      rw [List.getElem?_eq_getElem hpos] at hlast
      simpa using hlast
    refine hle.trans ?_
    have hik : i ≤ k - 1 := by rw [List.length_take] at hi; omega
    rcases hik.lt_or_eq with hlt | rfl
    · exact List.pairwise_iff_getElem.mp (h.sublist (List.take_sublist k l)) i (k - 1) hi hpos hlt
    · exact le_rfl

/-- **The values that are found are the beginning of any descending list of them all.** -/
theorem topK_eq_take (hk : 0 < k) {l t : List α} (ht : t.Pairwise (· ≥ ·)) (hperm : t.Perm l) :
    topK k l = t.take k := by
  have hfold : ∀ (l seen : List α), seen.Pairwise (· ≥ ·) →
      ∃ t : List α, t.Pairwise (· ≥ ·) ∧ t.Perm (seen ++ l) ∧
        l.foldl (push k) (seen.take k) = t.take k := by
    intro l
    induction l with
    | nil => exact fun seen hseen => ⟨seen, hseen, by rw [List.append_nil], rfl⟩
    | cons v l ih =>
      intro seen hseen
      obtain ⟨t, ht, hperm, heq⟩ := ih (insertDesc v seen) (pairwise_insertDesc v hseen)
      refine ⟨t, ht, hperm.trans ?_, ?_⟩
      · exact ((perm_insertDesc v seen).append_right l).trans List.perm_middle.symm
      · rw [List.foldl_cons, push_take hk hseen, heq]
  obtain ⟨t', ht', hperm', heq⟩ := hfold l [] List.Pairwise.nil
  rw [topK, ← List.take_nil (i := k), heq,
    (hperm.trans hperm'.symm).eq_of_pairwise' ht ht']

theorem pairwise_sortDesc (l : List α) : (sortDesc l).Pairwise (· ≥ ·) :=
  List.pairwise_insertionSort _ l

theorem perm_sortDesc (l : List α) : (sortDesc l).Perm l := List.perm_insertionSort _ l

theorem topK_eq (hk : 0 < k) (l : List α) : topK k l = (sortDesc l).take k :=
  topK_eq_take hk (pairwise_sortDesc l) (perm_sortDesc l)

theorem sortDesc_congr {l l' : List α} (h : l.Perm l') : sortDesc l = sortDesc l' :=
  (((perm_sortDesc l).trans h).trans (perm_sortDesc l').symm).eq_of_pairwise'
    (pairwise_sortDesc l) (pairwise_sortDesc l')

/-- **A value that none is below comes last.** -/
theorem sortDesc_cons_of_le {v : α} {l : List α} (h : ∀ x ∈ l, v ≤ x) :
    sortDesc (v :: l) = sortDesc l ++ [v] := by
  refine ((perm_sortDesc _).trans ?_).eq_of_pairwise' (pairwise_sortDesc _) ?_
  · exact ((perm_sortDesc l).symm.cons v).trans (List.perm_append_singleton v _).symm
  · refine List.pairwise_append.mpr ⟨pairwise_sortDesc l, List.pairwise_singleton _ v, ?_⟩
    intro x hx y hy
    obtain rfl := List.mem_singleton.mp hy
    exact h x ((perm_sortDesc l).mem_iff.mp hx)

end EmeraldExchange.TopK
