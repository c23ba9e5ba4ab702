import EmeraldExchange.Lib.Greedy
import EmeraldExchange.Recommender.Params
import EmeraldExchange.Recommender.Retrieval

/-!
# The recipes that retrieve

Of the five recipes four take the candidates that are retrieved, or the popular titles where nothing
is liked, and put them into an order: by similarity, with a penalty for what is like the titles
before, or by what they share with one title that is owned, with a cap on the share of titles for
kids. Whatever the order, it is one of some of the candidates, each once, so that what is returned
is vetted (`serves_cosine`,
`Fused.serves_score`).

What comes out of floating point arithmetic is given (`Scoring`): the
keys that a sort by total order compares, and the numbers among which a maximum is sought. Of a
title that is returned its score and the reason for it are left out.
-/

namespace EmeraldExchange.Recommender

open Greedy

/-- **What arithmetic finds of the titles**, by their identifiers. -/
structure Scoring where
  /-- How far a row of `title_vec` is from what the household likes. -/
  distance : ℤ → ℤ
  /-- The similarity and the popularity of a title. -/
  combined : ℤ → ℤ
  /-- The embedding of a title is finite and not zero. -/
  usable : ℤ → Bool
  /-- The relevance of a title next to those that are selected. -/
  marginal : List ℤ → ℤ → Binary64
  /-- The similarity of a title to the closest one that is owned. -/
  fused : ℤ → ℤ
  /-- The cheap half of the score of a title. -/
  cheap : ℤ → ℤ
  /-- How near a title is to an interest of the household. -/
  interest : ℕ → ℤ → ℤ
  /-- The share of an interest in a number of places. -/
  quota : ℕ → ℕ → ℕ
  /-- The score of a title. -/
  z : ℤ → ℤ
  /-- The gain of a title next to those that are on the slate. -/
  objective : List ℤ → ℤ → Binary64

/-- Sort by a key, highest first; equal keys stay in their order. -/
def sortDesc {α : Type} (key : α → ℤ) (l : List α) : List α :=
  l.insertionSort fun a b => key b ≤ key a

theorem perm_sortDesc {α : Type} (key : α → ℤ) (l : List α) : (sortDesc key l).Perm l :=
  List.perm_insertionSort _ _

theorem take_sortDesc_one {α : Type} {key : α → ℤ} {l : List α} {a : α} (ha : a ∈ l)
    (hmax : ∀ b ∈ l, key a ≤ key b → b = a) : (sortDesc key l).take 1 = [a] := by
  have htotal : Std.Total fun b c : α => key c ≤ key b := ⟨fun b c => le_total (key c) (key b)⟩
  have htrans : IsTrans α fun b c => key c ≤ key b := ⟨fun _ _ _ h h' => h'.trans h⟩
  have hsorted : (sortDesc key l).Pairwise fun b c => key c ≤ key b :=
    List.pairwise_insertionSort _ l
  have hperm := perm_sortDesc key l
  obtain ⟨b, rest, hl⟩ := List.exists_cons_of_ne_nil
    (List.ne_nil_of_mem (hperm.mem_iff.mpr ha))
  rw [hl] at hsorted
  have hb : b ∈ l := hperm.mem_iff.mp (hl ▸ List.mem_cons_self)
  have hab : key a ≤ key b := by
    rcases List.mem_cons.mp (hl ▸ hperm.mem_iff.mpr ha) with rfl | hrest
    · exact le_rfl
    · exact (List.pairwise_cons.mp hsorted).1 a hrest
  rw [hl, List.take_succ_cons, List.take_zero, hmax b hb hab]

/-! ### By similarity -/

/-- **Maximal marginal relevance**: the best next to those that are selected, one after the other;
titles without a proper embedding are skipped. -/
def mmrOrder (s : Scoring) (cands : List TitleRow) (n : ℕ) : List TitleRow :=
  let valid := cands.filter fun c => s.usable c.tmdbId
  picks (fun selected remaining =>
    let values := remaining.map fun c => s.marginal (selected.map TitleRow.tmdbId) c.tmdbId
    remaining[argmax Binary64.lt values]?) n [] valid

/-- `baseline_cosine`, and `mmr_diverse` with the number of titles that are diversified. -/
def cosine (st : Store) (s : Scoring) (user : UserContext) (n : ℕ) (p : P) (mmr : Option ℕ) :
    List TitleRow :=
  let minVotes := p.int "min_vote_count"
  if user.hasPositives then
    let batch := retrieveCandidates st s.distance user (p.size "pool_size") minVotes
    let scored := sortDesc (fun c => s.combined c.tmdbId) batch
    match mmr with
    | none => scored.take n
    | some k => mmrOrder s (scored.take k) n
  else coldStartPool st user n minVotes

/-! ### By what they share with an owned title -/

namespace Fused

def kidsGenreIds : List ℤ := [16, 10751, 10762]

def isKids (genreIds : List ℤ) : Bool := genreIds.any fun g => g ∈ kidsGenreIds

/-- One more title for kids would be too many: `kids + 1 > cap * (len + 1)`. -/
def overCap (cap : Binary64) (kids len : ℕ) : Bool :=
  (cap.mul (.ofRat (len + 1))).lt (.ofRat (kids + 1))

/-- Go on with those that are chosen and those that are deferred; at the end the deferred fill up
what is short. -/
def capFrom (n : ℕ) (cap : Binary64) : List TitleRow → List TitleRow → List TitleRow → ℕ →
    List TitleRow
  | [], chosen, deferred, _ => chosen ++ deferred.take (n - chosen.length)
  | t :: ts, chosen, deferred, kids =>
    if isKids t.genreIds && overCap cap kids chosen.length then
      capFrom n cap ts chosen (deferred ++ [t]) kids
    else if n ≤ (chosen ++ [t]).length then chosen ++ [t]
    else capFrom n cap ts (chosen ++ [t]) deferred (kids + if isKids t.genreIds then 1 else 0)

/-- **Up to `n` titles, the best first**, no prefix of which has too many for kids. -/
def capKidsShare (order : List TitleRow) (n : ℕ) (cap : Binary64) : List TitleRow :=
  if Binary64.lt (.ofRat 1) cap || cap = .ofRat 1 then order.take n
  else capFrom n cap order [] [] 0

/-- **The recipe `fused`.** A household that owns nothing is scored against what it likes, without
the titles that it likes. -/
def score (st : Store) (s : Scoring) (user : UserContext) (n : ℕ) (p : P) : List TitleRow :=
  let minVotes := p.int "min_vote_count"
  if user.hasPositives then
    let batch := retrieveCandidates st s.distance user (p.size "pool_size") minVotes
    let cands :=
      if user.libraryEmbeddings = ∅ then batch.filter fun c => c.tmdbId ∉ user.likedIds else batch
    capKidsShare (sortDesc (fun c => s.fused c.tmdbId) cands) n (p.num "kids_genre_cap")
  else coldStartPool st user n minVotes

end Fused

/-! ### What they return -/

/-- **Up to `n` titles that are vetted.** -/
structure Serves (user : UserContext) (keys : Finset String) (n : ℕ) (rows : List TitleRow) :
    Prop extends Vetted user keys rows where
  length_le : rows.length ≤ n

theorem serves_take {user : UserContext} {keys : Finset String} {rows : List TitleRow}
    (h : Vetted user keys rows) (n : ℕ) : Serves user keys n (rows.take n) :=
  ⟨h.of_sublist (List.take_sublist _ _), List.length_take_le _ _⟩

variable (st : Store) (s : Scoring) (user : UserContext) (p : P)

theorem serves_coldStartPool {n : ℕ} (hn : 1 ≤ n) (minVotes : ℤ) :
    Serves user user.libraryTitleKeys n (coldStartPool st user n minVotes) := by
  refine ⟨vetted_coldStartPool st user n minVotes, ?_⟩
  rw [coldStartPool, max_eq_left hn]
  exact List.length_take_le _ _

theorem proper_getElem {α : Type} [DecidableEq α] (index : List α → List α → ℕ) (all : List α) :
    Proper all fun selected remaining => remaining[index selected remaining]? :=
  fun _ _ _ _ h => List.mem_of_getElem? h

theorem serves_mmrOrder {keys : Finset String} {cands : List TitleRow}
    (h : Vetted user keys cands) (n : ℕ) : Serves user keys n (mmrOrder s cands n) := by
  have hvalid := h.of_sublist (List.filter_sublist (p := fun c => s.usable c.tmdbId))
  rw [mmrOrder]
  refine ⟨hvalid.of_subset (fun t ht => ?_) ?_, ?_⟩
  · exact mem_of_mem_picks (proper_getElem _ _) (List.Subset.refl _) t ht
  · exact nodup_picks (proper_getElem _ _) (List.Subset.refl _) (hvalid.nodup.of_map _)
  · simpa using length_picks_le _ n [] (cands.filter fun c => s.usable c.tmdbId)

/-- **By similarity what is returned is vetted.** -/
theorem serves_cosine {n : ℕ} (hn : 1 ≤ n) (mmr : Option ℕ) :
    Serves user user.libraryTitleKeys n (cosine st s user n p mmr) := by
  rw [cosine]
  split
  · have hscored := (vetted_retrieveCandidates st s.distance user (p.size "pool_size")
      (p.int "min_vote_count")).of_perm (perm_sortDesc (fun c => s.combined c.tmdbId) _)
    cases mmr with
    | none => exact serves_take hscored n
    | some k => exact serves_mmrOrder s user (hscored.of_sublist (List.take_sublist _ _)) n
  · exact serves_coldStartPool st user hn _

namespace Fused

theorem length_capFrom_le {n : ℕ} {cap : Binary64} : ∀ {order chosen deferred : List TitleRow}
    {kids : ℕ}, chosen.length < n → (capFrom n cap order chosen deferred kids).length ≤ n
  | [], chosen, deferred, _, h => by
    rw [capFrom, List.length_append]
    have := List.length_take_le (n - chosen.length) deferred
    omega
  | t :: ts, chosen, deferred, kids, h => by
    rw [capFrom]
    split
    · exact length_capFrom_le h
    · split
      · rw [List.length_append, List.length_singleton]
        omega
      · next hlt => exact length_capFrom_le (Nat.lt_of_not_le hlt)

theorem subperm_capFrom {n : ℕ} {cap : Binary64} : ∀ {order chosen deferred : List TitleRow}
    {kids : ℕ}, (capFrom n cap order chosen deferred kids).Subperm (chosen ++ deferred ++ order)
  | [], chosen, deferred, _ => by
    rw [capFrom, List.append_nil]
    exact ((List.take_sublist _ _).append_left chosen).subperm
  | t :: ts, chosen, deferred, kids => by
    rw [capFrom]
    split
    · -- deferred, and so before those to come
      refine subperm_capFrom.trans (List.Perm.subperm ?_)
      simp
    · rw [List.append_assoc chosen deferred]
      split
      · have ht : [t].Sublist (deferred ++ t :: ts) := List.singleton_sublist.mpr (by simp)
        exact (ht.append_left chosen).subperm
      · refine subperm_capFrom.trans (List.Perm.subperm ?_)
        rw [List.append_assoc, List.append_assoc, List.singleton_append]
        exact List.perm_middle.symm.append_left chosen

theorem serves_capKidsShare {user : UserContext} {keys : Finset String} {order : List TitleRow}
    (h : Vetted user keys order) {n : ℕ} (hn : 1 ≤ n) (cap : Binary64) :
    Serves user keys n (capKidsShare order n cap) := by
  rw [capKidsShare]
  split
  · exact serves_take h n
  · have hsub : (capFrom n cap order [] [] 0).Subperm order := subperm_capFrom
    obtain ⟨l, hperm, hl⟩ := hsub
    exact ⟨(h.of_sublist hl).of_perm hperm.symm, length_capFrom_le hn⟩

/-- **What `fused` returns is vetted.** -/
theorem serves_score {n : ℕ} (hn : 1 ≤ n) :
    Serves user user.libraryTitleKeys n (score st s user n p) := by
  rw [score]
  split
  · have hbatch := vetted_retrieveCandidates st s.distance user (p.size "pool_size")
      (p.int "min_vote_count")
    refine serves_capKidsShare (Vetted.of_perm ?_ (perm_sortDesc _ _)) hn _
    split
    · exact hbatch.of_sublist List.filter_sublist
    · exact hbatch
  · exact serves_coldStartPool st user hn _

end Fused

end EmeraldExchange.Recommender
