import EmeraldExchange.Recommender.Recipes
import EmeraldExchange.Lib.BinaryOrder
import EmeraldExchange.Lib.Greedy
import Mathlib.Data.Finset.Insert
import Mathlib.Data.Fintype.Basic
import Mathlib.Data.List.FinRange

/-!
# The slate, pick by pick

`slate` of `crates/recommender/src/recipes/ranker.rs` over the indices of its arrays, with the sums
and the sets that it keeps from one pick to the next: which titles are put beside each other.

Three constraints narrow what may come next, one after the other, each unless nothing would be left:
one title of a collection, no more for kids than the cap, no fewer new ones than the floor. What may
come next is said without the loop by `Third`, and the loop keeps
to it at each pick (`slate_lawful`) as long as its objective is a
number above negative infinity, which is what stands for a title that may not come
(`not_lawful_far`).

The objective is computed as in the source. The exponential, the logarithm and the product of two
embeddings, which is one of single precision, may be any functions.
-/

namespace EmeraldExchange.Recommender.Slate

open Greedy

/-! ### The inputs -/

/-- The functions of floating point that are not modelled. -/
structure Functions (E : Type) where
  exp : Binary64 → Binary64
  ln : Binary64 → Binary64
  dot : E → E → Binary64

/-- `SlateParams` -/
structure SlateParams where
  calibration : Binary64
  redundancy : Binary64
  kidsGenreCap : Binary64
  freshShare : Binary64

/-- **The arrays of a slate**, of one length `N`, over `G` genres. -/
structure Inputs (E : Type) (N G : ℕ) where
  z : Fin N → Binary64
  emb : Fin N → E
  gdist : Fin N → Fin G → Binary64
  target : Fin G → Binary64
  collection : Fin N → ℤ
  kids : Fin N → Bool
  fresh : Fin N → Bool

structure State (N G : ℕ) where
  chosen : List (Fin N)
  left : Fin N → Bool
  qsum : Fin G → Binary64
  bestSim : Fin N → Binary64
  seenColl : Finset ℤ
  nKids : ℕ
  nFresh : ℕ

variable {E : Type} {N G : ℕ} (f : Functions E) (inp : Inputs E N G) (p : SlateParams)

/-! ### What may come next -/

/-- Only what passes a test, unless nothing does. -/
def narrow (allowed keep : Fin N → Bool) : Fin N → Bool :=
  if ∃ i, (allowed i && keep i) = true then fun i => allowed i && keep i else allowed

def overCap (nKids len : ℕ) : Bool := Fused.overCap p.kidsGenreCap nKids len

/-- The new ones are below the floor, which is rounded down. -/
def belowFloor (nFresh len : ℕ) : Bool :=
  (Binary64.ofRat nFresh).lt (p.freshShare.mul (.ofRat (len + 1))).trunc

/-- The title is of a collection, and the collection is one of these. -/
def ofSeen (seen : Finset ℤ) (i : Fin N) : Bool :=
  inp.collection i ≠ 0 && inp.collection i ∈ seen

def allowedNext (s : State N G) : Fin N → Bool :=
  let allowed := narrow s.left fun i => !ofSeen inp s.seenColl i
  let allowed :=
    if overCap p s.nKids s.chosen.length then narrow allowed fun i => !inp.kids i else allowed
  if belowFloor p s.nFresh s.chosen.length then narrow allowed inp.fresh else allowed

/-! ### The objective -/

/-- `CALIBRATION_SMOOTHING` -/
def calibrationSmoothing : Binary64 := .ofRat (1 / 100)

def one : Binary64 := .ofRat 1

/-- The chance that a title is wanted: `1 / (1 + exp(-z))`, `z` from -30 to 30. -/
def rel (i : Fin N) : Binary64 :=
  one.div (one.add (f.exp (clamp (.ofRat (-30)) (.ofRat 30) (inp.z i)).neg))

/-- How far the genres of the slate with a title on it are from those of the target. -/
def divergence (s : State N G) (i : Fin N) : Binary64 :=
  let m := Binary64.ofRat (s.chosen.length + 1)
  let term := fun g =>
    let q := (((one.sub calibrationSmoothing).mul ((s.qsum g).add (inp.gdist i g))).div m).add
      (calibrationSmoothing.mul (inp.target g))
    (inp.target g).mul (f.ln ((inp.target g).div q))
  (((List.finRange G).filter fun g => (Binary64.finite 0).lt (inp.target g)).map term).foldl
    Binary64.add (.finite 0)

/-- **The objective** of a title that is put on the slate next. -/
def objective (s : State N G) (i : Fin N) : Binary64 :=
  (((one.sub p.calibration).mul (rel f inp i)).sub
    (p.calibration.mul (divergence f inp s i))).sub (p.redundancy.mul (s.bestSim i))

/-! ### The loop -/

def State.init : State N G where
  chosen := []
  left := fun _ => true
  qsum := fun _ => .finite 0
  bestSim := fun _ => .finite 0
  seenColl := ∅
  nKids := 0
  nFresh := 0

def State.take (s : State N G) (i : Fin N) : State N G where
  chosen := s.chosen ++ [i]
  left := fun j => s.left j && j ≠ i
  qsum := fun g => (s.qsum g).add (inp.gdist i g)
  bestSim := fun j => (s.bestSim j).maximum (f.dot (inp.emb i) (inp.emb j))
  seenColl := if inp.collection i ≠ 0 then insert (inp.collection i) s.seenColl else s.seenColl
  nKids := s.nKids + (inp.kids i).toNat
  nFresh := s.nFresh + (inp.fresh i).toNat

/-- The title of the greatest objective, which is negative infinity for what may not come. -/
def pick (s : State N G) : Option (Fin N) :=
  (List.finRange N)[argmax Binary64.lt ((List.finRange N).map fun i =>
    if allowedNext inp p s i then objective f inp p s i else .infinite true)]?

/-- The state after one more pick, or the same if nothing is left. -/
def step (s : State N G) : State N G :=
  if ∃ i, s.left i = true then ((pick f inp p s).map (s.take f inp)).getD s else s

def run (k : ℕ) : State N G := (step f inp p)^[k] .init

/-- **`slate`** -/
def slate (n : ℕ) : List (Fin N) := (run f inp p n).chosen

/-! ### What may come next, without the loop -/

/-- The title is of a collection of which one is on the slate. -/
def Used (chosen : List (Fin N)) (i : Fin N) : Prop :=
  inp.collection i ≠ 0 ∧ ∃ j ∈ chosen, inp.collection j = inp.collection i

def OverCap (chosen : List (Fin N)) : Prop :=
  overCap p (chosen.countP inp.kids) chosen.length = true

/-- The new ones are fewer than the floor for one more. -/
def BelowFloor (chosen : List (Fin N)) : Prop :=
  belowFloor p (chosen.countP inp.fresh) chosen.length = true

/-- **What the collections allow**: what is left, but nothing of a used one unless all is. -/
def First (chosen : List (Fin N)) (i : Fin N) : Prop :=
  i ∉ chosen ∧ ((∃ j, j ∉ chosen ∧ ¬Used inp chosen j) → ¬Used inp chosen i)

/-- **What the cap allows of it**: over the cap nothing for kids, unless all is. -/
def Second (chosen : List (Fin N)) (i : Fin N) : Prop :=
  First inp chosen i ∧ (OverCap inp p chosen →
    (∃ j, First inp chosen j ∧ inp.kids j = false) → inp.kids i = false)

/-- **What the floor allows of that**: below the floor only what is new, unless nothing is. -/
def Third (chosen : List (Fin N)) (i : Fin N) : Prop :=
  Second inp p chosen i ∧ (BelowFloor inp p chosen →
    (∃ j, Second inp p chosen j ∧ inp.fresh j = true) → inp.fresh i = true)

/-- **A pick breaks a constraint only when it is forced to.** -/
structure PickLawful (chosen : List (Fin N)) (i : Fin N) : Prop where
  collection : Used inp chosen i → ∀ j, j ∉ chosen → Used inp chosen j
  kids : inp.kids i = true → OverCap inp p chosen → ∀ j, First inp chosen j → inp.kids j = true
  fresh : inp.fresh i = false → BelowFloor inp p chosen →
    ∀ j, Second inp p chosen j → inp.fresh j = false

variable {inp p} {s : State N G}

theorem Third.lawful {chosen : List (Fin N)} {i : Fin N} (h : Third inp p chosen i) :
    PickLawful inp p chosen i := by
  obtain ⟨⟨⟨_, hcoll⟩, hkids⟩, hfresh⟩ := h
  refine ⟨fun hused j hj => ?_, fun hk hover j hj => ?_, fun hold hbelow j hj => ?_⟩
  · by_contra hnot
    exact hcoll ⟨j, hj, hnot⟩ hused
  · by_contra hnot
    rw [hkids hover ⟨j, hj, Bool.eq_false_iff.mpr hnot⟩] at hk
    cases hk
  · by_contra hnot
    rw [hfresh hbelow ⟨j, hj, Bool.of_not_eq_false hnot⟩] at hold
    cases hold

/-! ### What the loop keeps -/

/-- **The sums and sets are those of what is chosen.** -/
structure Tracks (inp : Inputs E N G) (s : State N G) : Prop where
  left : ∀ i, s.left i = true ↔ i ∉ s.chosen
  seen : ∀ c, c ∈ s.seenColl ↔ c ≠ 0 ∧ ∃ j ∈ s.chosen, inp.collection j = c
  nKids : s.nKids = s.chosen.countP inp.kids
  nFresh : s.nFresh = s.chosen.countP inp.fresh

theorem tracks_init : Tracks inp (.init : State N G) where
  left := fun _ => ⟨fun _ => List.not_mem_nil, fun _ => rfl⟩
  seen := fun c => by simp [State.init]
  nKids := rfl
  nFresh := rfl

theorem Tracks.take (h : Tracks inp s) (i : Fin N) : Tracks inp (s.take f inp i) where
  left := fun j => by
    rw [State.take, Bool.and_eq_true, h.left, decide_eq_true_eq, List.mem_append,
      List.mem_singleton, not_or]
  seen := fun c => by
    have hmem : (∃ j ∈ s.chosen ++ [i], inp.collection j = c) ↔
        inp.collection i = c ∨ ∃ j ∈ s.chosen, inp.collection j = c := by
      simp only [List.mem_append, List.mem_singleton]
      constructor
      · rintro ⟨j, hj | rfl, hc⟩
        · exact .inr ⟨j, hj, hc⟩
        · exact .inl hc
      · rintro (hc | ⟨j, hj, hc⟩)
        · exact ⟨i, .inr rfl, hc⟩
        · exact ⟨j, .inl hj, hc⟩
    rw [State.take, hmem]
    split_ifs with hzero
    · rw [Finset.mem_insert, h.seen]
      constructor
      · rintro (rfl | ⟨hc, hj⟩)
        · exact ⟨hzero, .inl rfl⟩
        · exact ⟨hc, .inr hj⟩
      · rintro ⟨hc, rfl | hj⟩
        · exact .inl rfl
        · exact .inr ⟨hc, hj⟩
    · rw [h.seen]
      rw [not_not] at hzero
      rw [hzero]
      constructor
      · exact fun ⟨hc, hj⟩ => ⟨hc, .inr hj⟩
      · rintro ⟨hc, rfl | hj⟩
        · exact absurd rfl hc
        · exact ⟨hc, hj⟩
  nKids := by
    rw [State.take, List.countP_append, List.countP_singleton, h.nKids]
    rcases inp.kids i with _ | _ <;> rfl
  nFresh := by
    rw [State.take, List.countP_append, List.countP_singleton, h.nFresh]
    rcases inp.fresh i with _ | _ <;> rfl

/-! ### What may come next, in the loop -/

theorem narrow_iff {allowed keep : Fin N → Bool} {i : Fin N} : narrow allowed keep i = true ↔
    allowed i = true ∧ ((∃ j, allowed j = true ∧ keep j = true) → keep i = true) := by
  simp only [narrow, Bool.and_eq_true]
  split_ifs with h
  · rw [Bool.and_eq_true]
    exact and_congr_right fun _ => ⟨fun hk _ => hk, fun hk => hk h⟩
  · exact ⟨fun ha => ⟨ha, fun hex => absurd hex h⟩, fun ha => ha.1⟩

theorem ite_narrow_iff {allowed keep : Fin N → Bool} {c : Bool} {i : Fin N} :
    (if c = true then narrow allowed keep else allowed) i = true ↔
      allowed i = true ∧
        (c = true → (∃ j, allowed j = true ∧ keep j = true) → keep i = true) := by
  rcases c with _ | _
  · simp
  · simp [narrow_iff]

theorem Tracks.ofSeen_iff (h : Tracks inp s) {i : Fin N} :
    ofSeen inp s.seenColl i = true ↔ Used inp s.chosen i := by
  rw [ofSeen, Bool.and_eq_true, decide_eq_true_eq, decide_eq_true_eq, h.seen, Used]
  tauto

/-- **The loop narrows to what may come next.** -/
theorem Tracks.allowedNext_iff (h : Tracks inp s) {i : Fin N} :
    allowedNext inp p s i = true ↔ Third inp p s.chosen i := by
  have hfirst : ∀ j, narrow s.left (fun i => !ofSeen inp s.seenColl i) j = true ↔
      First inp s.chosen j := by
    intro j
    simp only [narrow_iff, h.left, Bool.not_eq_true', ← Bool.not_eq_true, h.ofSeen_iff, First]
  have hsecond : ∀ j, (if overCap p s.nKids s.chosen.length = true then
      narrow (narrow s.left fun i => !ofSeen inp s.seenColl i) fun i => !inp.kids i
      else narrow s.left fun i => !ofSeen inp s.seenColl i) j = true ↔ Second inp p s.chosen j := by
    intro j
    simp only [ite_narrow_iff, hfirst, Bool.not_eq_true', h.nKids, Second, OverCap]
  rw [allowedNext]
  simp only [ite_narrow_iff, hsecond, h.nFresh, Third, BelowFloor]

theorem exists_first {chosen : List (Fin N)} (h : ∃ i, i ∉ chosen) : ∃ i, First inp chosen i := by
  by_cases hnew : ∃ j, j ∉ chosen ∧ ¬Used inp chosen j
  · obtain ⟨j, hj, hused⟩ := hnew
    exact ⟨j, hj, fun _ => hused⟩
  · obtain ⟨i, hi⟩ := h
    exact ⟨i, hi, fun hex => absurd hex hnew⟩

theorem exists_second {chosen : List (Fin N)} (h : ∃ i, First inp chosen i) :
    ∃ i, Second inp p chosen i := by
  by_cases hgrown : ∃ j, First inp chosen j ∧ inp.kids j = false
  · obtain ⟨j, hj, hkids⟩ := hgrown
    exact ⟨j, hj, fun _ _ => hkids⟩
  · obtain ⟨i, hi⟩ := h
    exact ⟨i, hi, fun _ hex => absurd hex hgrown⟩

/-- **Something may come next** while something is left. -/
theorem exists_third {chosen : List (Fin N)} (h : ∃ i, i ∉ chosen) :
    ∃ i, Third inp p chosen i := by
  have hsecond : ∃ i, Second inp p chosen i := exists_second (exists_first h)
  by_cases hnew : ∃ j, Second inp p chosen j ∧ inp.fresh j = true
  · obtain ⟨j, hj, hfresh⟩ := hnew
    exact ⟨j, hj, fun _ _ => hfresh⟩
  · obtain ⟨i, hi⟩ := hsecond
    exact ⟨i, hi, fun _ hex => absurd hex hnew⟩

/-! ### A pick -/

variable {f}

/-- **The objective of what is left is a number above negative infinity.** -/
def Numeric (f : Functions E) (inp : Inputs E N G) (p : SlateParams) (s : State N G) : Prop :=
  ∀ i, s.left i = true → Binary64.lt (.infinite true) (objective f inp p s i) = true

instance decidableNumeric : Decidable (Numeric f inp p s) :=
  inferInstanceAs (Decidable (∀ i, s.left i = true →
    Binary64.lt (.infinite true) (objective f inp p s i) = true))

theorem pick_spec (h : Tracks inp s) (hnum : Numeric f inp p s) (hleft : ∃ i, s.left i = true) :
    ∃ i, pick f inp p s = some i ∧ Third inp p s.chosen i := by
  set value := fun i => if allowedNext inp p s i then objective f inp p s i else .infinite true
    with hvalue
  have hbottom : ∀ i, value i = .infinite true ∨ Binary64.lt (.infinite true) (value i) = true := by
    intro i
    rw [hvalue]
    dsimp only
    split_ifs with hi
    · exact .inr (hnum i ((h.left i).mpr (h.allowedNext_iff.mp hi).1.1.1))
    · exact .inl rfl
  obtain ⟨i, hi⟩ := hleft
  obtain ⟨j, hj⟩ : ∃ j, Third inp p s.chosen j := exists_third ⟨i, (h.left i).mp hi⟩
  have hgood : Binary64.lt (.infinite true) (value j) = true := by
    rw [hvalue]
    dsimp only
    rw [if_pos (h.allowedNext_iff.mpr hj)]
    exact hnum j ((h.left j).mpr hj.1.1.1)
  have hvalues : ∀ x ∈ (List.finRange N).map value,
      x = .infinite true ∨ Binary64.lt (.infinite true) x = true := by
    intro x hx
    obtain ⟨i, _, rfl⟩ := List.mem_map.mp hx
    exact hbottom i
  obtain ⟨y, hy, hlt⟩ := exceeds_argmax Binary64.lt_infinite_true hvalues
    ⟨value j, List.mem_map_of_mem (List.mem_finRange j), hgood⟩
  rw [List.getElem?_map, Option.map_eq_some_iff] at hy
  obtain ⟨k, hk, rfl⟩ := hy
  refine ⟨k, hk, h.allowedNext_iff.mp ?_⟩
  by_contra hnot
  rw [hvalue] at hlt
  dsimp only at hlt
  rw [if_neg hnot] at hlt
  cases hlt

/-! ### The run -/

/-- **What is chosen is chosen lawfully.** -/
structure Lawful (inp : Inputs E N G) (p : SlateParams) (chosen : List (Fin N)) : Prop where
  nodup : chosen.Nodup
  picks : ∀ pre i post, chosen = pre ++ i :: post → PickLawful inp p pre i

theorem lawful_nil : Lawful inp p ([] : List (Fin N)) :=
  ⟨List.nodup_nil, fun _ _ _ h => absurd h.symm (List.append_ne_nil_of_right_ne_nil _
    (List.cons_ne_nil _ _))⟩

theorem Lawful.concat {chosen : List (Fin N)} {i : Fin N} (h : Lawful inp p chosen)
    (hi : Third inp p chosen i) : Lawful inp p (chosen ++ [i]) := by
  refine ⟨List.nodup_append.mpr ⟨h.nodup, List.nodup_cons.mpr ⟨List.not_mem_nil, List.nodup_nil⟩,
    ?_⟩, fun pre j post heq => ?_⟩
  · rintro a ha b hb rfl
    obtain rfl := List.mem_singleton.mp hb
    exact hi.1.1.1 ha
  · rcases List.eq_nil_or_concat post with rfl | ⟨post, k, rfl⟩
    · -- the last pick
      obtain ⟨rfl, hlast⟩ := List.append_inj' heq rfl
      obtain rfl := (List.cons.inj hlast).1
      exact hi.lawful
    · have heq : chosen ++ [i] = (pre ++ j :: post) ++ [k] := by simpa using heq
      exact h.picks pre j post (List.append_inj' heq rfl).1

theorem step_cases (h : Tracks inp s) (hnum : Numeric f inp p s) :
    (∃ i, Third inp p s.chosen i ∧ step f inp p s = s.take f inp i) ∨
      (∀ i, i ∈ s.chosen) ∧ step f inp p s = s := by
  rw [step]
  split_ifs with hleft
  · obtain ⟨i, hpick, hi⟩ := pick_spec h hnum hleft
    rw [hpick]
    exact .inl ⟨i, hi, rfl⟩
  · refine .inr ⟨fun i => ?_, rfl⟩
    by_contra hi
    exact hleft ⟨i, (h.left i).mpr hi⟩

theorem length_lt_of_notMem {chosen : List (Fin N)} (h : chosen.Nodup) {i : Fin N}
    (hi : i ∉ chosen) : chosen.length < N := by
  have hcons : (i :: chosen).Nodup := List.nodup_cons.mpr ⟨hi, h⟩
  have hsub : (i :: chosen).Subperm (List.finRange N) :=
    hcons.subperm fun j _ => List.mem_finRange j
  have hle := hsub.length_le
  rwa [List.length_cons, List.length_finRange] at hle

theorem le_length_of_forall_mem {chosen : List (Fin N)} (h : ∀ i, i ∈ chosen) :
    N ≤ chosen.length := by
  have hsub : (List.finRange N).Subperm chosen := (List.nodup_finRange N).subperm fun j _ => h j
  have hle := hsub.length_le
  rwa [List.length_finRange] at hle

/-- **What a run keeps.** -/
theorem run_spec (n : ℕ) (hnum : ∀ k < n, Numeric f inp p (run f inp p k)) :
    Tracks inp (run f inp p n) ∧ Lawful inp p (run f inp p n).chosen ∧
      (run f inp p n).chosen.length = min n N := by
  induction n with
  | zero => exact ⟨tracks_init, lawful_nil, (Nat.zero_min N).symm⟩
  | succ n ih =>
    obtain ⟨htracks, hlawful, hlen⟩ := ih fun k hk => hnum k (hk.trans n.lt_succ_self)
    have hsucc : run f inp p (n + 1) = step f inp p (run f inp p n) :=
      Function.iterate_succ_apply' ..
    rw [hsucc]
    rcases step_cases htracks (hnum n n.lt_succ_self) with ⟨i, hi, heq⟩ | ⟨hall, heq⟩
    · rw [heq]
      have hlt := length_lt_of_notMem hlawful.nodup hi.1.1.1
      refine ⟨htracks.take f i, hlawful.concat hi, ?_⟩
      rw [State.take, List.length_append, List.length_singleton]
      omega
    · rw [heq]
      have hle := le_length_of_forall_mem hall
      exact ⟨htracks, hlawful, by omega⟩

/-- **The slate is as long as asked for, or as there are titles; no title comes twice; and each pick
breaks a constraint only when it is forced to**, the collections first, then the cap, then the
floor, as long as the objective of what is left is a number above negative infinity at each pick. -/
theorem slate_lawful (f : Functions E) (inp : Inputs E N G) (p : SlateParams) (n : ℕ)
    (hnum : ∀ k < n, Numeric f inp p (run f inp p k)) :
    (slate f inp p n).length = min n N ∧ (slate f inp p n).Nodup ∧
      ∀ pre i post, slate f inp p n = pre ++ i :: post → PickLawful inp p pre i := by
  obtain ⟨_, hlawful, hlen⟩ := run_spec n hnum
  exact ⟨hlen, hlawful.nodup, hlawful.picks⟩

/-- Embeddings of one coordinate, and an exponential that is that of zero. -/
def plain : Functions Binary64 := ⟨fun _ => one, fun _ => .finite 0, Binary64.mul⟩

/-- Titles that differ in their flags alone, without genres. -/
def flagged (emb : Binary64) (collection : Fin N → ℤ) (kids fresh : Fin N → Bool) :
    Inputs Binary64 N 0 :=
  ⟨fun _ => .finite 0, fun _ => emb, fun _ g => g.elim0, fun g => g.elim0, collection, kids, fresh⟩

/-- Two films of a collection, the second of them new and for kids like the third, under a cap of a
half and a floor of a half. -/
def threeFilms : Inputs Binary64 3 0 :=
  flagged one [7, 7, 0].get [false, true, true].get [false, true, true].get

def halves : SlateParams := ⟨.finite 0, .finite 0, .ofRat (1 / 2), .ofRat (1 / 2)⟩

theorem slate_lawful_threeFilms : slate plain threeFilms halves 3 = [0, 2, 1] ∧
    (slate plain threeFilms halves 3).Nodup ∧
      ∀ pre i post, slate plain threeFilms halves 3 = pre ++ i :: post →
        PickLawful threeFilms halves pre i :=
  ⟨by decide +kernel, (slate_lawful plain threeFilms halves 3 (by decide +kernel)).2⟩

/-- Two films, the product of whose embeddings is four, where it counts for `1e308`. -/
def twoFilms : Inputs Binary64 2 0 :=
  flagged (.finite 2) (fun _ => 0) (fun _ => false) fun _ => false

def far : SlateParams := ⟨.finite 0, .ofRat (10 ^ 308), .ofRat 1, .finite 0⟩

/-- **Finite numbers are not enough**: once the objective is negative infinity the first film comes
again. -/
theorem not_lawful_far :
    slate plain twoFilms far 2 = [0, 0] ∧ ¬(slate plain twoFilms far 2).Nodup := by
  have h : slate plain twoFilms far 2 = [0, 0] := by decide +kernel
  exact ⟨h, by rw [h]; decide⟩

end EmeraldExchange.Recommender.Slate
