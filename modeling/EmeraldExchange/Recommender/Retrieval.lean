import EmeraldExchange.Recommender.Context
import Mathlib.Algebra.Ring.Int.Defs
import Mathlib.Data.Finset.Card

/-!
# Candidates

There are two ways to candidates: the titles nearest to what a household likes, and the popular ones
where nothing is known of it. Both leave out what the household owns, by identifier and by title,
and what it rejects or dislikes (`vetted_retrieveCandidates`,
`vetted_coldStartPool`). What was shown of late is left out as far as
there is room: the nearest titles are found before anything is left out, and only so many of them.

Which titles are near is arithmetic, and is given here; so are the keys of the rows of `title_vec`.
-/

namespace EmeraldExchange.Recommender

/-! ### What is left out -/

/-- As many neighbours as `sqlite-vec` finds. -/
def vecKnnMaxK : ℕ := 4096

/-- What was shown of late, as far as there is room, and what is left out anyway is not. -/
def softExclusions (hard : Finset ℤ) (keepSoft : ℕ) : List ℤ → Finset ℤ → Finset ℤ
  | [], soft => soft
  | tid :: tids, soft =>
    if keepSoft ≤ soft.card then soft
    else softExclusions hard keepSoft tids (if tid ∉ hard then insert tid soft else soft)

def UserContext.hard (user : UserContext) : Finset ℤ :=
  user.libraryIds ∪ user.rejectedIds ∪ user.dislikedIds

/-- **What is left out of the neighbours.** -/
def boundedExclusions (user : UserContext) (poolSize : ℕ) : Finset ℤ :=
  let keepSoft := vecKnnMaxK - (max poolSize 200 + user.hard.card)
  user.hard ∪ softExclusions user.hard keepSoft user.recentlyShownOrder ∅

/-- A title that is owned under this name, or with another subtitle. -/
def UserContext.owns (user : UserContext) (title : String) : Bool :=
  user.libraryTitleKeys ≠ ∅ && (titleKeyVariants title).any fun k => k ∈ user.libraryTitleKeys

/-! ### The neighbours -/

def kindBit : ℤ := 2 ^ 32

/-- The identifier of a row of `title_vec`, if it is of the kind that is expected. -/
def decodeVecRowid (rowid : ℤ) (expected : Kind) : Option ℤ :=
  match expected with
  | .tv => if rowid / kindBit % 2 = 1 then some (rowid - kindBit) else none
  | .movie => if rowid / kindBit % 2 = 1 then none else some rowid

/-- The rows of `title_vec` of a kind. -/
def Store.vecRows (st : Store) (kind : Kind) : List ℤ :=
  (st.titleVec.entries.filter fun e => e.2 = kind).map Sigma.fst

def Store.nearest (st : Store) (kind : Kind) (distance : ℤ → ℤ) (k : ℕ) : List ℤ :=
  ((st.vecRows kind).insertionSort fun a b => distance a ≤ distance b).take k

/-- The row of a title that has an embedding, enough votes, and is available. -/
def Store.candidate (st : Store) (kind : Kind) (minVoteCount : ℤ) (tid : ℤ) : Option TitleRow :=
  ((st.titles kind).get tid).filter fun r =>
    r.tmdbId ∈ st.features kind && minVoteCount ≤ r.voteCount && r.available

/-- **The nearest titles that pass.** The loop looks at the size of the pool after it has added a
title. -/
def retrieveCandidates (st : Store) (distance : ℤ → ℤ) (user : UserContext) (poolSize : ℕ)
    (minVoteCount : ℤ) : List TitleRow :=
  let excluded := boundedExclusions user poolSize
  let overfetch := min (max (max (poolSize * 3) (poolSize + excluded.card)) 200) vecKnnMaxK
  let rows := st.nearest user.kind distance overfetch
  let keepIds := (rows.filterMap fun r => decodeVecRowid r user.kind).filter (· ∉ excluded)
  let found := keepIds.filterMap (st.candidate user.kind minVoteCount)
  (found.filter fun t => !user.owns t.title).take (max poolSize 1)

/-! ### The popular titles -/

/-- **The most popular titles that pass.** -/
def coldStartPool (st : Store) (user : UserContext) (poolSize : ℕ) (minVoteCount : ℤ) :
    List TitleRow :=
  let excluded := user.libraryIds ∪ user.rejectedIds ∪ user.recentlyShownIds ∪ user.dislikedIds
  let fetchLimit := max (poolSize * 3) (poolSize + excluded.card)
  let found := (st.titles user.kind).rows.filter fun r => minVoteCount ≤ r.voteCount && r.available
  let rows := (found.insertionSort fun a b => b.popularity ≤ a.popularity).take fetchLimit
  let passed := (rows.filter fun t => t.tmdbId ∉ excluded).filter fun t => !user.owns t.title
  passed.take (max poolSize 1)

/-! ### What passes -/

/-- **Nothing that the household owns or vetoes**, each title once. -/
structure Vetted (user : UserContext) (keys : Finset String) (rows : List TitleRow) : Prop where
  nodup : (rows.map TitleRow.tmdbId).Nodup
  hard : ∀ t ∈ rows, t.tmdbId ∉ user.hard
  key : ∀ t ∈ rows, ∀ key, normalizeTitleKey t.title.toList = some key → key ∉ keys

namespace Vetted

variable {user : UserContext} {keys : Finset String} {rows : List TitleRow}

theorem of_subset (h : Vetted user keys rows) {chosen : List TitleRow} (hsub : chosen ⊆ rows)
    (hnodup : chosen.Nodup) : Vetted user keys chosen where
  nodup := hnodup.map_on fun _ ha _ hb =>
    List.inj_on_of_nodup_map h.nodup (hsub ha) (hsub hb)
  hard := fun t ht => h.hard t (hsub ht)
  key := fun t ht => h.key t (hsub ht)

theorem of_sublist (h : Vetted user keys rows) {chosen : List TitleRow}
    (hsub : chosen.Sublist rows) : Vetted user keys chosen :=
  h.of_subset hsub.subset ((h.nodup.of_map _).sublist hsub)

theorem of_perm (h : Vetted user keys rows) {chosen : List TitleRow} (hperm : chosen.Perm rows) :
    Vetted user keys chosen :=
  h.of_subset hperm.subset (hperm.nodup_iff.mpr (h.nodup.of_map _))

theorem mono (h : Vetted user keys rows) {keys' : Finset String} (hsub : keys' ⊆ keys) :
    Vetted user keys' rows where
  nodup := h.nodup
  hard := h.hard
  key := fun t ht key hkey hmem => h.key t ht key hkey (hsub hmem)

end Vetted

theorem not_mem_of_not_owns {user : UserContext} {title key : String}
    (h : user.owns title = false) (hkey : normalizeTitleKey title.toList = some key) :
    key ∉ user.libraryTitleKeys := by
  intro hmem
  have hany : (titleKeyVariants title).any (fun k => k ∈ user.libraryTitleKeys) = true :=
    List.any_eq_true.mpr ⟨key, mem_titleKeyVariants hkey, decide_eq_true hmem⟩
  rw [UserContext.owns, hany, Bool.and_true] at h
  exact absurd (Finset.ne_empty_of_mem hmem) (by simpa using h)

theorem tmdbId_of_get {t : TitleTable} {id : ℤ} {r : TitleRow} (h : t.get id = some r) :
    r.tmdbId = id := by
  simpa using List.find?_some h

theorem decodeVecRowid_inj {a b id : ℤ} {kind : Kind} (ha : decodeVecRowid a kind = some id)
    (hb : decodeVecRowid b kind = some id) : a = b := by
  cases kind with
  | movie =>
    rw [decodeVecRowid] at ha hb
    split at ha
    · cases ha
    · split at hb
      · cases hb
      · obtain rfl := Option.some.inj ha
        exact (Option.some.inj hb).symm
  | tv =>
    rw [decodeVecRowid] at ha hb
    split at ha
    · split at hb
      · have ha := Option.some.inj ha
        have hb := Option.some.inj hb
        omega
      · cases hb
    · cases ha

theorem nodup_vecRows (st : Store) (kind : Kind) : (st.vecRows kind).Nodup :=
  (show (st.titleVec.entries.map Sigma.fst).Nodup from st.titleVec.nodupKeys).sublist
    (List.filter_sublist.map _)

theorem sublist_map_filterMap {α β : Type} {f : α → Option β} {g : β → α}
    (h : ∀ a b, f a = some b → g b = a) : ∀ l : List α, ((l.filterMap f).map g).Sublist l
  | [] => .slnil
  | a :: l => by
    have ih := sublist_map_filterMap h l
    cases hf : f a with
    | none =>
      rw [List.filterMap_cons_none hf]
      exact ih.cons a
    | some b =>
      rw [List.filterMap_cons_some hf, List.map_cons, h a b hf]
      exact ih.cons_cons a

/-- **The nearest titles that pass are vetted.** -/
theorem vetted_retrieveCandidates (st : Store) (distance : ℤ → ℤ) (user : UserContext)
    (poolSize : ℕ) (minVoteCount : ℤ) :
    Vetted user user.libraryTitleKeys
      (retrieveCandidates st distance user poolSize minVoteCount) := by
  rw [retrieveCandidates]
  refine Vetted.of_sublist ?_ (List.take_sublist _ _)
  have hid : ∀ id r, st.candidate user.kind minVoteCount id = some r → r.tmdbId = id :=
    fun _ _ h => tmdbId_of_get (Option.filter_eq_some_iff.mp h).1
  constructor
  · -- each row of `title_vec` gives another identifier
    refine List.Nodup.sublist (List.filter_sublist.map _) ?_
    refine List.Nodup.sublist (sublist_map_filterMap hid _) (List.Nodup.filter _ ?_)
    refine List.Nodup.filterMap (fun a b c ha hb => decodeVecRowid_inj ha hb) ?_
    exact ((List.perm_insertionSort _ _).nodup_iff.mpr (nodup_vecRows st user.kind)).sublist
      (List.take_sublist _ _)
  · intro t ht hhard
    obtain ⟨id, hmem, hfound⟩ := List.mem_filterMap.mp (List.mem_of_mem_filter ht)
    have hnot := (List.mem_filter.mp hmem).2
    rw [hid id t hfound] at hhard
    exact absurd (Finset.mem_union_left _ hhard) (by simpa [boundedExclusions] using hnot)
  · intro t ht key hkey
    exact not_mem_of_not_owns (by simpa using (List.mem_filter.mp ht).2) hkey

/-- **The popular titles that pass are vetted.** -/
theorem vetted_coldStartPool (st : Store) (user : UserContext) (poolSize : ℕ)
    (minVoteCount : ℤ) :
    Vetted user user.libraryTitleKeys (coldStartPool st user poolSize minVoteCount) := by
  rw [coldStartPool]
  refine Vetted.of_sublist ?_ (List.take_sublist _ _)
  constructor
  · refine List.Nodup.sublist (List.Sublist.map _ (List.filter_sublist.trans
      (List.filter_sublist.trans (List.take_sublist _ _)))) ?_
    refine ((List.perm_insertionSort _ _).map _).nodup_iff.mpr ?_
    exact (st.titles user.kind).nodup.sublist (List.filter_sublist.map _)
  · intro t ht hhard
    have hnot := (List.mem_filter.mp (List.mem_of_mem_filter ht)).2
    simp only [UserContext.hard, Finset.mem_union] at hhard
    simp only [Finset.mem_union, decide_eq_true_eq] at hnot
    tauto
  · intro t ht key hkey
    exact not_mem_of_not_owns (by simpa using (List.mem_filter.mp ht).2) hkey

end EmeraldExchange.Recommender
