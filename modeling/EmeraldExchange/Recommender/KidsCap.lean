import EmeraldExchange.Lib.BinaryOrder
import EmeraldExchange.Recommender.Recipes

/-!
# The share for kids

`cap_kids_share` of `crates/recommender/src/recipes/fused.rs`: the best of an order, with no more
for kids than a share of what is taken so far. One for kids that would be too many is put off, and
what was put off fills up the end, when the order is at its end and places are left.

The share is compared as a product of doubles, `kids + 1 > cap * (len + 1)`, and so is the bound
that is kept at every prefix before the end is filled up
(`served_capKidsShare`). The quotient of the two numbers may be
above the cap by what was rounded (`share_six`).
-/

namespace EmeraldExchange.Recommender.KidsCap

variable {α : Type*} (kids : α → Bool) (n : ℕ) (cap : Binary64)

/-- Go on with those that are chosen, those that are deferred and the number for kids among the
chosen; the chosen, and what is filled up with at the end. -/
def pass : List α → List α → List α → ℕ → List α × List α
  | [], chosen, deferred, _ => (chosen, deferred.take (n - chosen.length))
  | i :: order, chosen, deferred, nKids =>
    if kids i && Fused.overCap cap nKids chosen.length then
      pass order chosen (deferred ++ [i]) nKids
    else if n ≤ (chosen ++ [i]).length then (chosen ++ [i], [])
    else pass order (chosen ++ [i]) deferred (nKids + (kids i).toNat)

/-- What is chosen of an order, before the end is filled up. -/
def front (order : List α) : List α := (pass kids n cap order [] [] 0).1

def backfill (order : List α) : List α := (pass kids n cap order [] [] 0).2

/-- **`cap_kids_share`** -/
def capKidsShare (order : List α) : List α :=
  if Binary64.lt (.ofRat 1) cap || cap = .ofRat 1 then order.take n
  else front kids n cap order ++ backfill kids n cap order

/-! ### The bound -/

/-- **The number for kids is at most the cap times the length**, as that is computed. -/
def Within (l : List α) : Prop :=
  (cap.mul (.ofRat l.length)).lt (.ofRat (l.countP kids)) = false

variable {kids n cap}

theorem within_nil {q : ℚ} : Within kids (.finite q) ([] : List α) := by
  have hzero : Binary64.ofRat ((0 : ℕ) : ℚ) = .finite 0 := by
    exact_mod_cast Binary64.ofRat_intCast (z := 0) (by decide)
  rw [Within, List.length_nil, List.countP_nil, hzero, Binary64.mul, mul_zero]
  exact_mod_cast congrArg (fun x => Binary64.lt x (.finite 0)) hzero

/-- **One that is not for kids never makes them too many.** -/
theorem Within.concat_grown {q : ℚ} (hq : 0 ≤ q) {l : List α} (h : Within kids (.finite q) l)
    {i : α} (hi : kids i = false) : Within kids (.finite q) (l ++ [i]) := by
  have hcount : (l ++ [i]).countP kids = l.countP kids := by
    rw [List.countP_append, List.countP_singleton, hi]
    rfl
  have hlen : (l.length : ℚ) ≤ ((l ++ [i]).length : ℕ) := by
    rw [List.length_append]
    exact_mod_cast Nat.le_add_right ..
  rw [Within, hcount]
  exact Binary64.mul_ofRat_lt_mono hq (Nat.cast_nonneg _) hlen h

theorem Within.concat_kid {l : List α} {i : α} (hi : kids i = true)
    (h : Fused.overCap cap (l.countP kids) l.length = false) : Within kids cap (l ++ [i]) := by
  have hcount : (l ++ [i]).countP kids = l.countP kids + 1 := by
    rw [List.countP_append, List.countP_singleton, hi]
    rfl
  rw [Within, hcount, List.length_append, List.length_singleton, Nat.cast_add_one, Nat.cast_add_one]
  exact h

/-! ### The pass -/

/-- **What the pass keeps**: what it has seen is chosen or put off, those that are not for kids in
their order, and the chosen are fewer than asked for and nowhere too many for kids. -/
structure Passed (kids : α → Bool) (n : ℕ) (cap : Binary64) (seen chosen deferred : List α)
    (nKids : ℕ) : Prop where
  perm : (chosen ++ deferred).Perm seen
  grown : (chosen.filter fun i => !kids i) = seen.filter fun i => !kids i
  deferred : ∀ i ∈ deferred, kids i = true
  count : nKids = chosen.countP kids
  within : ∀ l, l <+: chosen → Within kids cap l
  short : chosen.length < n

/-- **What is asked of the two parts of the result.** -/
structure Served (kids : α → Bool) (n : ℕ) (cap : Binary64) (order front back : List α) :
    Prop where
  length : (front ++ back).length = min n order.length
  subperm : (front ++ back).Subperm order
  grown : ((front ++ back).filter fun i => !kids i) <+: order.filter fun i => !kids i
  within : ∀ l, l <+: front → Within kids cap l
  kids_back : ∀ i ∈ back, kids i = true
  full : back ≠ [] → ∀ i ∈ order, kids i = false → i ∈ front

variable {seen chosen deferred order : List α} {nKids : ℕ} {i : α}

theorem Passed.defer (h : Passed kids n cap seen chosen deferred nKids) (hi : kids i = true) :
    Passed kids n cap (seen ++ [i]) chosen (deferred ++ [i]) nKids where
  perm := by
    rw [← List.append_assoc]
    exact h.perm.append_right [i]
  grown := by
    rw [List.filter_append, h.grown, List.filter_singleton, hi]
    exact (List.append_nil _).symm
  deferred := by
    intro j hj
    rcases List.mem_append.mp hj with hj | hj
    · exact h.deferred j hj
    · exact List.mem_singleton.mp hj ▸ hi
  count := h.count
  within := h.within
  short := h.short

theorem Passed.within_concat {q : ℚ} (hq : 0 ≤ q)
    (h : Passed kids n (.finite q) seen chosen deferred nKids)
    (hover : (kids i && Fused.overCap (.finite q) nKids chosen.length) = false) :
    ∀ l, l <+: chosen ++ [i] → Within kids (.finite q) l := by
  intro l hl
  rcases List.prefix_concat_iff.mp hl with rfl | hl
  · rcases hi : kids i with _ | _
    · exact (h.within chosen (List.prefix_refl _)).concat_grown hq hi
    · rw [hi, Bool.true_and, h.count] at hover
      exact .concat_kid hi hover
  · exact h.within l hl

theorem Passed.perm_concat (h : Passed kids n cap seen chosen deferred nKids) :
    (chosen ++ [i] ++ deferred).Perm (seen ++ [i]) := by
  have hmove : (chosen ++ [i] ++ deferred).Perm (chosen ++ deferred ++ [i]) := by
    rw [List.append_assoc, List.append_assoc]
    exact List.perm_append_comm.append_left chosen
  exact hmove.trans (h.perm.append_right [i])

theorem Passed.grown_concat (h : Passed kids n cap seen chosen deferred nKids) :
    ((chosen ++ [i]).filter fun i => !kids i) = (seen ++ [i]).filter fun i => !kids i := by
  rw [List.filter_append, List.filter_append, h.grown]

theorem Passed.choose {q : ℚ} (hq : 0 ≤ q)
    (h : Passed kids n (.finite q) seen chosen deferred nKids)
    (hover : (kids i && Fused.overCap (.finite q) nKids chosen.length) = false)
    (hn : (chosen ++ [i]).length < n) :
    Passed kids n (.finite q) (seen ++ [i]) (chosen ++ [i]) deferred
      (nKids + (kids i).toNat) where
  perm := h.perm_concat
  grown := h.grown_concat
  deferred := h.deferred
  count := by
    rw [List.countP_append, List.countP_singleton, h.count]
    rcases kids i with _ | _ <;> rfl
  within := h.within_concat hq hover
  short := hn

theorem Passed.served (h : Passed kids n cap order chosen deferred nKids) :
    Served kids n cap order chosen (deferred.take (n - chosen.length)) where
  length := by
    have hlen := h.perm.length_eq
    rw [List.length_append] at hlen
    rw [List.length_append, List.length_take]
    have := h.short
    omega
  subperm := ((List.take_sublist _ _).append_left chosen).subperm.trans h.perm.subperm
  grown := by
    have hnone : ((deferred.take (n - chosen.length)).filter fun i => !kids i) = [] := by
      refine List.filter_eq_nil_iff.mpr fun j hj => ?_
      rw [h.deferred j (List.mem_of_mem_take hj)]
      decide
    rw [List.filter_append, hnone, List.append_nil, h.grown]
  within := h.within
  kids_back := fun j hj => h.deferred j (List.mem_of_mem_take hj)
  full := by
    intro _ j hj hkids
    have hmem : j ∈ order.filter fun i => !kids i :=
      List.mem_filter.mpr ⟨hj, by rw [hkids]; rfl⟩
    exact List.mem_of_mem_filter (h.grown.symm ▸ hmem)

theorem Passed.served_full {q : ℚ} (hq : 0 ≤ q)
    (h : Passed kids n (.finite q) seen chosen deferred nKids)
    (hover : (kids i && Fused.overCap (.finite q) nKids chosen.length) = false)
    (hn : n ≤ (chosen ++ [i]).length) (rest : List α) :
    Served kids n (.finite q) (seen ++ i :: rest) (chosen ++ [i]) [] where
  length := by
    have hlen := h.perm.length_eq
    have hshort := h.short
    rw [List.length_append] at hlen
    rw [List.append_nil]
    simp only [List.length_append, List.length_cons, List.length_nil] at hn ⊢
    omega
  subperm := by
    rw [List.append_nil, List.append_cons seen i rest]
    refine (List.sublist_append_left (chosen ++ [i]) deferred).subperm.trans ?_
    exact h.perm_concat.subperm.trans (List.sublist_append_left _ _).subperm
  grown := by
    rw [List.append_nil, h.grown_concat, List.append_cons seen i rest,
      List.filter_append (seen ++ [i])]
    exact List.prefix_append ..
  within := h.within_concat hq hover
  kids_back := fun j hj => absurd hj List.not_mem_nil
  full := fun hne => absurd rfl hne

/-- **The pass over what is left of an order.** -/
theorem served_pass {q : ℚ} (hq : 0 ≤ q) :
    ∀ (rest : List α) {seen chosen deferred : List α} {nKids : ℕ},
    Passed kids n (.finite q) seen chosen deferred nKids →
    Served kids n (.finite q) (seen ++ rest) (pass kids n (.finite q) rest chosen deferred nKids).1
      (pass kids n (.finite q) rest chosen deferred nKids).2
  | [], _, _, _, _, h => by
    rw [List.append_nil]
    exact h.served
  | i :: rest, _, _, _, _, h => by
    rw [pass]
    split_ifs with hover hn
    · have ih := served_pass hq rest (h.defer (Bool.and_eq_true_iff.mp hover).1)
      rwa [List.append_assoc] at ih
    · exact h.served_full hq (Bool.eq_false_iff.mpr hover) hn rest
    · have ih := served_pass hq rest
        (h.choose hq (Bool.eq_false_iff.mpr hover) (Nat.lt_of_not_le hn))
      rwa [List.append_assoc] at ih

/-- **As many are returned as are asked for, or all; the others in their order; the number for kids
is at most the cap times the length at every prefix before the end is filled up, and it is filled up
with some for kids, once all others are taken.** -/
theorem served_capKidsShare (kids : α → Bool) {q : ℚ} (hq : 0 ≤ q) (hq' : q < 1) {n : ℕ}
    (hn : 1 ≤ n) {order : List α} (h : order.Nodup) :
    capKidsShare kids n (.finite q) order =
        front kids n (.finite q) order ++ backfill kids n (.finite q) order ∧
      (capKidsShare kids n (.finite q) order).Nodup ∧
      Served kids n (.finite q) order (front kids n (.finite q) order)
        (backfill kids n (.finite q) order) := by
  have hone : Binary64.ofRat 1 = .finite 1 := by
    exact_mod_cast Binary64.ofRat_intCast (z := 1) (by decide)
  have hcap : capKidsShare kids n (.finite q) order =
      front kids n (.finite q) order ++ backfill kids n (.finite q) order := by
    refine if_neg ?_
    rw [hone, Bool.or_eq_true, decide_eq_true_eq, Binary64.finite.injEq]
    rintro (hlt | rfl)
    · exact absurd (of_decide_eq_true hlt) (not_lt.mpr hq'.le)
    · exact lt_irrefl _ hq'
  have hstart : Passed kids n (.finite q) [] [] [] 0 := by
    refine ⟨.refl _, rfl, fun _ hj => absurd hj List.not_mem_nil, rfl, fun l hl => ?_, hn⟩
    rw [List.prefix_nil.mp hl]
    exact within_nil
  have hserved : Served kids n (.finite q) order (front kids n (.finite q) order)
      (backfill kids n (.finite q) order) := served_pass hq order hstart
  refine ⟨hcap, ?_, hserved⟩
  rw [hcap]
  obtain ⟨l, hperm, hsub⟩ := hserved.subperm
  exact hperm.nodup_iff.mp (h.sublist hsub)

def sixTitles : List ℕ := [0, 1, 2, 3, 4, 5]

def laterKids (i : ℕ) : Bool := i ≠ 0

def belowFiveSixths : ℚ := 7505999378950826 / 9007199254740992

theorem served_sixTitles :
    Served laterKids 6 (.finite belowFiveSixths) sixTitles
      (front laterKids 6 (.finite belowFiveSixths) sixTitles)
      (backfill laterKids 6 (.finite belowFiveSixths) sixTitles) :=
  (served_capKidsShare laterKids (by decide +kernel) (by decide +kernel) (by decide)
    (by decide)).2.2

/-- **Five of six are for kids, although that is more than the cap**: six times the cap is rounded
to five. -/
theorem share_six : Binary64.ofRat belowFiveSixths = .finite belowFiveSixths ∧
    front laterKids 6 (.finite belowFiveSixths) sixTitles = sixTitles ∧
    belowFiveSixths < (sixTitles.countP laterKids : ℚ) / sixTitles.length ∧
    (Binary64.finite belowFiveSixths).lt (.ofRat (5 / 6)) = true := by
  decide +kernel

end EmeraldExchange.Recommender.KidsCap
