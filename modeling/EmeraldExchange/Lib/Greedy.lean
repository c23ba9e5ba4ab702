import Mathlib.Data.List.Basic
import Mathlib.Data.List.Nodup
import Mathlib.Order.Lattice

/-!
# Greedy selection

Things are selected one after the other, each time the one that is best next to those selected
before. When the choice is always made among those that are left, nothing is selected twice
(`nodup_picks`).

The best is the first that no other exceeds. Of values that may not be comparable – floating point
has some – that is only so much as a position of the list (`argmax_lt`); and
where all that is not wanted has a value that the others exceed, it is the position of one that is
wanted (`exceeds_argmax`).
-/

namespace EmeraldExchange.Greedy

variable {α β : Type*}

/-! ### The position of a maximum -/

section Argmax

variable (lt : β → β → Bool)

/-- Go on from position `i`, with the best position so far and its value. -/
def argmaxFrom (best : ℕ) (value : β) (i : ℕ) : List β → ℕ
  | [] => best
  | x :: xs => if lt value x then argmaxFrom i x (i + 1) xs else argmaxFrom best value (i + 1) xs

/-- **The first position of a maximum**, zero where there is none. -/
def argmax : List β → ℕ
  | [] => 0
  | x :: xs => argmaxFrom lt 0 x 1 xs

theorem argmaxFrom_cases : ∀ (xs : List β) (best : ℕ) (value : β) (i : ℕ),
    argmaxFrom lt best value i xs = best ∨
      i ≤ argmaxFrom lt best value i xs ∧ argmaxFrom lt best value i xs < i + xs.length
  | [], _, _, _ => .inl rfl
  | x :: xs, best, value, i => by
    rw [argmaxFrom, List.length_cons]
    split
    · rcases argmaxFrom_cases xs i x (i + 1) with h | h
      · exact .inr (by omega)
      · exact .inr (by omega)
    · exact (argmaxFrom_cases xs best value (i + 1)).imp_right fun h => by omega

variable {lt}

/-- **The position of a maximum is a position.** -/
theorem argmax_lt {xs : List β} (h : xs ≠ []) : argmax lt xs < xs.length := by
  obtain ⟨x, xs, rfl⟩ := List.exists_cons_of_ne_nil h
  rw [argmax, List.length_cons]
  rcases argmaxFrom_cases lt xs 0 x 1 with h | h
  · omega
  · omega

theorem argmax_eq_zero {xs : List β} (h : ∀ x ∈ xs, ∀ y ∈ xs, lt x y = false) :
    argmax lt xs = 0 := by
  have hfrom : ∀ (ys : List β) (value : β) (i : ℕ), (∀ y ∈ ys, lt value y = false) →
      argmaxFrom lt 0 value i ys = 0 := by
    intro ys
    induction ys with
    | nil => exact fun _ _ _ => rfl
    | cons y ys ih =>
      intro value i hys
      obtain ⟨hy, hys⟩ := List.forall_mem_cons.mp hys
      rw [argmaxFrom, hy]
      exact ih value (i + 1) hys
  rcases xs with _ | ⟨x, xs⟩
  · rfl
  · exact hfrom xs x 1 fun y hy => h x List.mem_cons_self y (List.mem_cons_of_mem x hy)

variable {bottom : β}

theorem exceeds_argmaxFrom (hirrefl : ∀ x, lt x bottom = false) :
    ∀ (xs : List β) (best : ℕ) (value : β) (pre : List β), pre[best]? = some value →
    (value = bottom ∨ lt bottom value = true) → (∀ x ∈ xs, x = bottom ∨ lt bottom x = true) →
    (lt bottom value = true ∨ ∃ x ∈ xs, lt bottom x = true) →
    ∃ y, (pre ++ xs)[argmaxFrom lt best value pre.length xs]? = some y ∧ lt bottom y = true
  | [], best, value, pre, hbest, _, _, hex => by
    rw [List.append_nil]
    exact ⟨value, hbest, hex.resolve_right (by simp)⟩
  | x :: xs, best, value, pre, hbest, hvalue, hxs, hex => by
    obtain ⟨hx, hxs⟩ := List.forall_mem_cons.mp hxs
    have hex : lt bottom value = true ∨ lt bottom x = true ∨ ∃ x ∈ xs, lt bottom x = true := by
      simpa using hex
    have happ : pre ++ x :: xs = (pre ++ [x]) ++ xs := by simp
    have hlen : pre.length + 1 = (pre ++ [x]).length := by simp
    rw [argmaxFrom, happ, hlen]
    split
    · next hlt =>
      -- the new best cannot be the bottom, which exceeds nothing
      have hgood : lt bottom x = true := by
        rcases hx with rfl | hx
        · rw [hirrefl] at hlt
          cases hlt
        · exact hx
      exact exceeds_argmaxFrom hirrefl xs pre.length x (pre ++ [x]) (by simp) (.inr hgood) hxs
        (.inl hgood)
    · next hlt =>
      have hlast : (pre ++ [x])[best]? = some value := by
        rw [List.getElem?_append_left (List.getElem?_eq_some_iff.mp hbest).1, hbest]
      refine exceeds_argmaxFrom hirrefl xs best value (pre ++ [x]) hlast hvalue hxs ?_
      rcases hex with h | h | h
      · exact .inl h
      · rcases hvalue with rfl | hvalue
        · exact absurd h hlt
        · exact .inl hvalue
      · exact .inr h

/-- **The maximum exceeds the bottom** if all that is not the bottom does, and there is some. -/
theorem exceeds_argmax (hirrefl : ∀ x, lt x bottom = false) {xs : List β}
    (hxs : ∀ x ∈ xs, x = bottom ∨ lt bottom x = true) (hex : ∃ x ∈ xs, lt bottom x = true) :
    ∃ y, xs[argmax lt xs]? = some y ∧ lt bottom y = true := by
  obtain ⟨x, xs, rfl⟩ : ∃ x l, xs = x :: l := by
    obtain ⟨x, hx, -⟩ := hex
    exact List.exists_cons_of_ne_nil (List.ne_nil_of_mem hx)
  obtain ⟨hx, hxs⟩ := List.forall_mem_cons.mp hxs
  exact exceeds_argmaxFrom hirrefl xs 0 x [x] rfl hx hxs (by simpa using hex)

end Argmax

/-! ### The first of the greatest -/

section First

variable [LinearOrder β]

/-- **The first greatest value of a list** is at a position: no value exceeds it, and those before
are less. -/
structure FirstGreatest (xs : List β) (p : ℕ) (y : β) : Prop where
  at_pos : xs[p]? = some y
  le : ∀ x ∈ xs, x ≤ y
  lt : ∀ q < p, ∀ x, xs[q]? = some x → x < y

theorem firstGreatest_argmaxFrom : ∀ (xs : List β) (best : ℕ) (value : β) (pre : List β),
    FirstGreatest pre best value →
    ∃ y, FirstGreatest (pre ++ xs) (argmaxFrom (fun a b => a < b) best value pre.length xs) y
  | [], best, value, pre, h => by
    rw [List.append_nil]
    exact ⟨value, h⟩
  | x :: xs, best, value, pre, h => by
    have happ : pre ++ x :: xs = (pre ++ [x]) ++ xs := by simp
    have hlen : pre.length + 1 = (pre ++ [x]).length := by simp
    have hbest : best < pre.length := (List.getElem?_eq_some_iff.mp h.at_pos).1
    rw [argmaxFrom, happ, hlen]
    split
    · next hlt =>
      have hlt : value < x := of_decide_eq_true hlt
      refine firstGreatest_argmaxFrom xs pre.length x (pre ++ [x]) ⟨by simp, ?_, ?_⟩
      · intro z hz
        rcases List.mem_append.mp hz with hz | hz
        · exact (h.le z hz).trans hlt.le
        · exact (List.mem_singleton.mp hz).le
      · intro q hq z hz
        rw [List.getElem?_append_left hq] at hz
        exact (h.le z (List.mem_of_getElem? hz)).trans_lt hlt
    · next hge =>
      have hge : x ≤ value := not_lt.mp fun hlt => hge (decide_eq_true hlt)
      refine firstGreatest_argmaxFrom xs best value (pre ++ [x]) ⟨?_, ?_, ?_⟩
      · rw [List.getElem?_append_left hbest]
        exact h.at_pos
      · intro z hz
        rcases List.mem_append.mp hz with hz | hz
        · exact h.le z hz
        · exact (List.mem_singleton.mp hz).trans_le hge
      · intro q hq z hz
        rw [List.getElem?_append_left (Nat.lt_trans hq hbest)] at hz
        exact h.lt q hq z hz

/-- **What `argmax` finds is the first of the greatest.** -/
theorem firstGreatest_argmax {xs : List β} (h : xs ≠ []) :
    ∃ y, FirstGreatest xs (argmax (fun a b => a < b) xs) y := by
  obtain ⟨x, xs, rfl⟩ := List.exists_cons_of_ne_nil h
  refine firstGreatest_argmaxFrom xs 0 x [x] ⟨rfl, fun z hz => ?_, fun q hq => ?_⟩
  · exact (List.mem_singleton.mp hz).le
  · exact absurd hq q.not_lt_zero

end First

/-! ### Selection -/

variable [DecidableEq α]

/-- **Select up to `n` more**, one after the other; `choose` is told what is selected already and
what is left. -/
def picks (choose : List α → List α → Option α) : ℕ → List α → List α → List α
  | 0, chosen, _ => chosen
  | n + 1, chosen, left =>
    match choose chosen left with
    | none => chosen
    | some a => picks choose n (chosen ++ [a]) (left.erase a)

variable {choose : List α → List α → Option α}

/-- The choice is made among what is left, as long as that is part of `all`. -/
def Proper (all : List α) (choose : List α → List α → Option α) : Prop :=
  ∀ chosen left a, left ⊆ all → choose chosen left = some a → a ∈ left

theorem length_picks_le (choose : List α → List α → Option α) :
    ∀ (n : ℕ) (chosen left : List α), (picks choose n chosen left).length ≤ chosen.length + n
  | 0, _, _ => Nat.le_refl _
  | n + 1, chosen, left => by
    rw [picks]
    split
    · omega
    · next a _ =>
      have ih := length_picks_le choose n (chosen ++ [a]) (left.erase a)
      rw [List.length_append, List.length_singleton] at ih
      omega

theorem perm_move {a : α} {chosen left : List α} (h : a ∈ left) :
    ((chosen ++ [a]) ++ left.erase a).Perm (chosen ++ left) := by
  rw [List.append_assoc]
  exact (List.perm_cons_erase h).symm.append_left chosen

/-- **Nothing is selected that was not there.** -/
theorem mem_of_mem_picks {all : List α} (hchoose : Proper all choose) :
    ∀ {n : ℕ} {chosen left : List α}, left ⊆ all → ∀ a ∈ picks choose n chosen left,
      a ∈ chosen ++ left
  | 0, _, _, _, _, h => List.mem_append_left _ h
  | n + 1, chosen, left, hall, a, h => by
    rw [picks] at h
    split at h
    · exact List.mem_append_left _ h
    · next b hb =>
      have hleft := hchoose _ _ _ hall hb
      have ih := mem_of_mem_picks hchoose (fun c hc => hall (List.mem_of_mem_erase hc)) a h
      exact (perm_move hleft).mem_iff.mp ih

/-- **As many are selected as are asked for**, or all there are, if there always is a choice. -/
theorem length_picks {all : List α} (hchoose : Proper all choose)
    (hsome : ∀ chosen left, left ≠ [] → left ⊆ all → choose chosen left ≠ none) :
    ∀ {n : ℕ} {chosen left : List α}, left ⊆ all →
      (picks choose n chosen left).length = chosen.length + min n left.length
  | 0, _, _, _ => by rw [Nat.zero_min, Nat.add_zero, picks]
  | n + 1, chosen, left, hall => by
    rw [picks]
    split
    · next hnone =>
      obtain rfl : left = [] := by
        by_contra hne
        exact hsome chosen left hne hall hnone
      rw [List.length_nil, Nat.min_zero, Nat.add_zero]
    · next a ha =>
      have hleft := hchoose _ _ _ hall ha
      have hpos := List.length_pos_of_mem hleft
      rw [length_picks hchoose hsome fun c hc => hall (List.mem_of_mem_erase hc),
        List.length_append, List.length_singleton, List.length_erase_of_mem hleft]
      omega

/-- **Nothing is selected twice.** -/
theorem nodup_picks {all : List α} (hchoose : Proper all choose) :
    ∀ {n : ℕ} {chosen left : List α}, left ⊆ all → (chosen ++ left).Nodup →
      (picks choose n chosen left).Nodup
  | 0, _, _, _, h => (List.nodup_append.mp h).1
  | n + 1, chosen, left, hall, h => by
    rw [picks]
    split
    · exact (List.nodup_append.mp h).1
    · next a ha =>
      have hleft := hchoose _ _ _ hall ha
      exact nodup_picks hchoose (fun c hc => hall (List.mem_of_mem_erase hc))
        ((perm_move hleft).nodup_iff.mpr h)

end EmeraldExchange.Greedy
