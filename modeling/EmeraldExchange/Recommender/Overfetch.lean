import EmeraldExchange.Recommender.Retrieval

/-!
# As many neighbours as are needed

The nearest titles are found before anything is left out, and `sqlite-vec` finds no more than 4096.
So more are asked for than the pool holds, as many as may be left out; and of what is left out, what
was shown of late gives way where the sum would be too large.

Where what must be left out leaves room for the pool, the two fit together: the pool is filled if
there are titles to fill it with (`min_le_length_keepIds`).
-/

namespace EmeraldExchange.Recommender

/-! ### The front of a list -/

theorem mem_take_of_pairwise {α : Type} {r : α → α → Prop} {l : List α} {n : ℕ} {a b : α}
    (hl : l.Pairwise r) (ha : a ∈ l.take n) (hb : b ∈ l) (hab : ¬ r a b) : b ∈ l.take n := by
  rw [← List.take_append_drop n l] at hl hb
  rcases List.mem_append.mp hb with hb | hb
  · exact hb
  · exact absurd ((List.pairwise_append.mp hl).2.2 a ha b hb) hab

/-- **A front with room for what is bad has enough of what is good.** -/
theorem min_le_countP_take {α : Type} (good : α → Bool) (l : List α) {k b p : ℕ}
    (hbad : l.countP (fun a => !good a) ≤ b) (h : p + b ≤ k) :
    min p (l.countP good) ≤ (l.take k).countP good := by
  by_cases hk : l.length ≤ k
  · rw [List.take_of_length_le hk]
    exact min_le_right _ _
  · have hlen : (l.take k).length = k := List.length_take_of_le (by omega)
    have hsplit := List.length_eq_countP_add_countP (l := l.take k) good
    have hle := (List.take_sublist k l).countP_le (p := fun a => !good a)
    refine (min_le_left _ _).trans ?_
    simp only [Bool.not_eq_true, Bool.decide_eq_false] at hsplit
    omega

/-! ### How many are asked for -/

/-- **The neighbours that are asked for.** -/
def UserContext.overfetch (user : UserContext) (poolSize : ℕ) : ℕ :=
  min (max (max (poolSize * 3) (poolSize + (boundedExclusions user poolSize).card)) 200)
    vecKnnMaxK

def Store.fetched (st : Store) (distance : ℤ → ℤ) (user : UserContext) (poolSize : ℕ) : List ℤ :=
  st.nearest user.kind distance (user.overfetch poolSize)

/-- What is kept of some rows: what is read as an identifier that is not left out. -/
def keepIds (user : UserContext) (poolSize : ℕ) (rows : List ℤ) : List ℤ :=
  (rows.filterMap fun r => decodeVecRowid r user.kind).filter
    (· ∉ boundedExclusions user poolSize)

/-- A row that is not left out. A row that is not read as an identifier of the kind is passed over
later, and is none that is left out. -/
def survives (user : UserContext) (poolSize : ℕ) (rowid : ℤ) : Bool :=
  (decodeVecRowid rowid user.kind).all (· ∉ boundedExclusions user poolSize)

/-! ### What was shown of late -/

/-- **What is left out of it is the newest of it.** -/
theorem softExclusions_eq_take (hard : Finset ℤ) (keepSoft : ℕ) :
    ∀ (tids : List ℤ) (soft : Finset ℤ),
      ∃ n, hard ∪ softExclusions hard keepSoft tids soft = hard ∪ soft ∪ (tids.take n).toFinset
  | [], soft => ⟨0, by simp [softExclusions]⟩
  | tid :: tids, soft => by
    rw [softExclusions]
    by_cases hfull : keepSoft ≤ soft.card
    · exact ⟨0, by simp [hfull]⟩
    · obtain ⟨n, hn⟩ :=
        softExclusions_eq_take hard keepSoft tids (if tid ∉ hard then insert tid soft else soft)
      refine ⟨n + 1, ?_⟩
      rw [if_neg hfull, hn, List.take_succ_cons, List.toFinset_cons]
      by_cases hmem : tid ∈ hard
      · -- it is left out anyway
        rw [if_neg (not_not.mpr hmem), Finset.union_insert, Finset.insert_eq_of_mem]
        exact Finset.mem_union_left _ (Finset.mem_union_left _ hmem)
      · rw [if_pos hmem, Finset.union_insert, Finset.union_insert, Finset.insert_union]

theorem card_softExclusions_le (hard : Finset ℤ) (keepSoft : ℕ) :
    ∀ (tids : List ℤ) (soft : Finset ℤ), soft.card ≤ keepSoft →
      (softExclusions hard keepSoft tids soft).card ≤ keepSoft
  | [], _, h => h
  | tid :: tids, soft, h => by
    rw [softExclusions]
    by_cases hfull : keepSoft ≤ soft.card
    · rwa [if_pos hfull]
    · rw [if_neg hfull]
      refine card_softExclusions_le hard keepSoft tids _ ?_
      by_cases hmem : tid ∈ hard
      · rwa [if_neg (not_not.mpr hmem)]
      · rw [if_pos hmem]
        have hcard := Finset.card_insert_le tid soft
        omega

theorem boundedExclusions_eq_take (user : UserContext) (poolSize : ℕ) :
    ∃ n, boundedExclusions user poolSize =
      user.hard ∪ (user.recentlyShownOrder.take n).toFinset := by
  obtain ⟨n, hn⟩ := softExclusions_eq_take user.hard
    (vecKnnMaxK - (max poolSize 200 + user.hard.card)) user.recentlyShownOrder ∅
  exact ⟨n, by rw [boundedExclusions, hn, Finset.union_empty]⟩

/-- **There is room for the pool.** -/
theorem add_card_boundedExclusions_le {user : UserContext} {poolSize : ℕ}
    (h : user.hard.card + max poolSize 200 ≤ vecKnnMaxK) :
    max poolSize 200 + (boundedExclusions user poolSize).card ≤ vecKnnMaxK := by
  have hcard := Finset.card_union_le user.hard (softExclusions user.hard
    (vecKnnMaxK - (max poolSize 200 + user.hard.card)) user.recentlyShownOrder ∅)
  have hsoft := card_softExclusions_le user.hard
    (vecKnnMaxK - (max poolSize 200 + user.hard.card)) user.recentlyShownOrder ∅
    (by simp)
  rw [boundedExclusions]
  omega

/-! ### By the stamps -/

/-- The rows of what was shown of late, newest first. -/
def Store.shownRows (st : Store) (sqlNow : ℤ) (req : Score) : List (Σ _ : Title, ℤ) :=
  (st.events.recentlyShown.entries.filter fun e =>
    e.1.sub = req.sub && e.1.kind = req.kind &&
      datetime sqlNow - recentlyShownRetentionDays * 86400 ≤ datetime e.2).insertionSort
    fun a b => b.2 ≤ a.2

/-- A title that a member was shown of late, and when. -/
structure Store.ShownAt (st : Store) (sqlNow : ℤ) (req : Score) (id ts : ℤ) : Prop where
  shown : st.events.recentlyShown.lookup ⟨req.sub, req.kind, id⟩ = some ts
  late : datetime sqlNow - recentlyShownRetentionDays * 86400 ≤ datetime ts

theorem Store.mem_shownRows {st : Store} {sqlNow : ℤ} {req : Score} {id ts : ℤ} :
    st.ShownAt sqlNow req id ts ↔ ⟨⟨req.sub, req.kind, id⟩, ts⟩ ∈ st.shownRows sqlNow req := by
  rw [Store.shownRows, List.mem_insertionSort, List.mem_filter]
  constructor
  · rintro ⟨h, hlate⟩
    exact ⟨AList.mem_lookup_iff.mp h, by simpa using hlate⟩
  · rintro ⟨h, hlate⟩
    exact ⟨AList.mem_lookup_iff.mpr h, by simpa using hlate⟩

theorem Store.shownAt_of_mem_shownRows {st : Store} {sqlNow : ℤ} {req : Score}
    {e : Σ _ : Title, ℤ} (h : e ∈ st.shownRows sqlNow req) :
    st.ShownAt sqlNow req e.1.tmdbId e.2 := by
  obtain ⟨⟨sub, kind, id⟩, ts⟩ := e
  have hfilter := h
  rw [Store.shownRows, List.mem_insertionSort, List.mem_filter] at hfilter
  obtain ⟨rfl, rfl⟩ : sub = req.sub ∧ kind = req.kind := by
    have htest := hfilter.2
    simp only [Bool.and_eq_true, decide_eq_true_eq] at htest
    exact htest.1
  exact Store.mem_shownRows.mpr h

theorem pairwise_shownRows (st : Store) (sqlNow : ℤ) (req : Score) :
    (st.shownRows sqlNow req).Pairwise fun a b => b.2 ≤ a.2 := by
  have : Std.Total fun a b : Σ _ : Title, ℤ => b.2 ≤ a.2 := ⟨fun a b => le_total b.2 a.2⟩
  have : IsTrans (Σ _ : Title, ℤ) fun a b => b.2 ≤ a.2 := ⟨fun _ _ _ hab hbc => hbc.trans hab⟩
  exact List.pairwise_insertionSort _ _

/-- **What was shown later is left out before what was shown earlier.** -/
theorem mem_boundedExclusions_of_later {st : Store} {sqlNow : ℤ} {req : Score}
    {storedEngagement : Bool} {poolSize : ℕ} {id ts id' ts' : ℤ}
    (h : st.ShownAt sqlNow req id ts) (h' : st.ShownAt sqlNow req id' ts')
    (hmem : id ∈ boundedExclusions (loadUserContext st sqlNow req storedEngagement) poolSize)
    (hsoft : id ∉ (loadUserContext st sqlNow req storedEngagement).hard) (hlater : ts < ts') :
    id' ∈ boundedExclusions (loadUserContext st sqlNow req storedEngagement) poolSize := by
  obtain ⟨n, hn⟩ :=
    boundedExclusions_eq_take (loadUserContext st sqlNow req storedEngagement) poolSize
  rw [hn] at hmem ⊢
  refine Finset.mem_union_right _ ?_
  have hmem := List.mem_toFinset.mp ((Finset.mem_union.mp hmem).resolve_left hsoft)
  rw [List.mem_toFinset]
  have horder : (loadUserContext st sqlNow req storedEngagement).recentlyShownOrder =
      if req.excludeRecentlyShown then (st.shownRows sqlNow req).map fun e => e.1.tmdbId else [] :=
    rfl
  rw [horder] at hmem ⊢
  by_cases hexcl : req.excludeRecentlyShown = true
  · rw [if_pos hexcl, ← List.map_take] at hmem ⊢
    obtain ⟨e, he, rfl⟩ := List.mem_map.mp hmem
    have hrow := List.mem_of_mem_take he
    -- the row that was taken is the one of the earlier stamp
    have hts : e.2 = ts := by
      have hkey := Store.shownAt_of_mem_shownRows hrow
      exact Option.some.inj (hkey.shown.symm.trans h.shown)
    refine List.mem_map.mpr ⟨⟨⟨req.sub, req.kind, id'⟩, ts'⟩, ?_, rfl⟩
    refine mem_take_of_pairwise (pairwise_shownRows st sqlNow req) he
      (Store.mem_shownRows.mp h') ?_
    show ¬ ts' ≤ e.2
    omega
  · rw [if_neg hexcl] at hmem
    simp at hmem

/-! ### The pool is filled -/

theorem countP_not_survives_le (st : Store) (user : UserContext) (poolSize : ℕ) :
    (st.vecRows user.kind).countP (fun r => !survives user poolSize r) ≤
      (boundedExclusions user poolSize).card := by
  rw [List.countP_eq_length_filter]
  -- each is read as another identifier that is left out
  have hread : ∀ r ∈ (st.vecRows user.kind).filter (fun r => !survives user poolSize r),
      ∃ id ∈ boundedExclusions user poolSize, decodeVecRowid r user.kind = some id := by
    intro r hr
    have hout := (List.mem_filter.mp hr).2
    rw [survives] at hout
    cases hdec : decodeVecRowid r user.kind with
    | none => simp [hdec] at hout
    | some id => exact ⟨id, by simpa [hdec] using hout, rfl⟩
  have hnodup := (nodup_vecRows st user.kind).filter fun r => !survives user poolSize r
  rw [← List.toFinset_card_of_nodup hnodup]
  refine Finset.card_le_card_of_injOn (fun r => (decodeVecRowid r user.kind).getD 0) ?_ ?_
  · intro r hr
    obtain ⟨id, hid, hdec⟩ := hread r (List.mem_toFinset.mp hr)
    simpa [hdec] using hid
  · intro a ha b hb hab
    obtain ⟨ida, -, hdeca⟩ := hread a (List.mem_toFinset.mp ha)
    obtain ⟨idb, -, hdecb⟩ := hread b (List.mem_toFinset.mp hb)
    have hid : ida = idb := by simpa [hdeca, hdecb] using hab
    exact decodeVecRowid_inj hdeca (hid ▸ hdecb)

theorem overfetch_le (user : UserContext) (poolSize : ℕ) :
    user.overfetch poolSize ≤ vecKnnMaxK :=
  min_le_right _ _

theorem add_card_le_overfetch {user : UserContext} {poolSize : ℕ}
    (h : user.hard.card + max poolSize 200 ≤ vecKnnMaxK) :
    poolSize + (boundedExclusions user poolSize).card ≤ user.overfetch poolSize := by
  have hroom := add_card_boundedExclusions_le h
  rw [UserContext.overfetch]
  omega

/-- **As many rows as the pool holds are fetched that are not left out**, or all there are. -/
theorem min_le_countP_fetched (st : Store) (distance : ℤ → ℤ) {user : UserContext} {poolSize : ℕ}
    (h : user.hard.card + max poolSize 200 ≤ vecKnnMaxK) :
    min poolSize ((st.vecRows user.kind).countP (survives user poolSize)) ≤
      (st.fetched distance user poolSize).countP (survives user poolSize) := by
  have hperm := List.perm_insertionSort (fun a b => distance a ≤ distance b) (st.vecRows user.kind)
  rw [← hperm.countP_eq (survives user poolSize), Store.fetched, Store.nearest]
  refine min_le_countP_take _ _ ?_ (add_card_le_overfetch h)
  rw [hperm.countP_eq]
  exact countP_not_survives_le st user poolSize

theorem length_keepIds {user : UserContext} {poolSize : ℕ} :
    ∀ {rows : List ℤ}, (∀ r ∈ rows, (decodeVecRowid r user.kind).isSome) →
      (keepIds user poolSize rows).length = rows.countP (survives user poolSize)
  | [], _ => rfl
  | r :: rows, h => by
    obtain ⟨id, hid⟩ := Option.isSome_iff_exists.mp (h r List.mem_cons_self)
    have ih : (keepIds user poolSize rows).length = rows.countP (survives user poolSize) :=
      length_keepIds fun r' hr' => h r' (List.mem_cons_of_mem _ hr')
    rw [keepIds] at ih
    rw [keepIds, List.filterMap_cons_some (f := fun r => decodeVecRowid r user.kind) hid,
      List.countP_cons, survives, hid, Option.all_some, List.filter_cons, ← ih]
    by_cases hmem : id ∈ boundedExclusions user poolSize
    · simp [hmem]
    · simp [hmem]

/-- **The pool is filled if there are titles to fill it with.** -/
theorem min_le_length_keepIds (st : Store) (distance : ℤ → ℤ) {user : UserContext} {poolSize : ℕ}
    (h : user.hard.card + max poolSize 200 ≤ vecKnnMaxK)
    (hread : ∀ r ∈ st.vecRows user.kind, (decodeVecRowid r user.kind).isSome) :
    min poolSize ((st.vecRows user.kind).countP (survives user poolSize)) ≤
      (keepIds user poolSize (st.fetched distance user poolSize)).length := by
  rw [length_keepIds]
  · exact min_le_countP_fetched st distance h
  · intro r hr
    exact hread r ((List.mem_insertionSort _).mp (List.mem_of_mem_take hr))

/-- **The exclusions do not starve the retrieval.** -/
theorem retrieval_not_starved (user : UserContext) (poolSize : ℕ) :
    user.libraryIds ∪ user.rejectedIds ∪ user.dislikedIds ⊆ boundedExclusions user poolSize ∧
    (∃ n, boundedExclusions user poolSize =
      user.hard ∪ (user.recentlyShownOrder.take n).toFinset) ∧
    (∀ st sqlNow req storedEngagement, user = loadUserContext st sqlNow req storedEngagement →
      ∀ id ts id' ts', st.ShownAt sqlNow req id ts → st.ShownAt sqlNow req id' ts' →
        id ∈ boundedExclusions user poolSize → id ∉ user.hard → ts < ts' →
          id' ∈ boundedExclusions user poolSize) ∧
    (user.hard.card + max poolSize 200 ≤ vecKnnMaxK →
      poolSize + (boundedExclusions user poolSize).card ≤ user.overfetch poolSize ∧
      user.overfetch poolSize ≤ vecKnnMaxK ∧
      ∀ st : Store, ∀ distance,
        min poolSize ((st.vecRows user.kind).countP (survives user poolSize)) ≤
          (st.fetched distance user poolSize).countP (survives user poolSize) ∧
        ((∀ r ∈ st.vecRows user.kind, (decodeVecRowid r user.kind).isSome) →
          min poolSize ((st.vecRows user.kind).countP (survives user poolSize)) ≤
            (keepIds user poolSize (st.fetched distance user poolSize)).length)) := by
  refine ⟨Finset.subset_union_left, boundedExclusions_eq_take user poolSize, ?_, ?_⟩
  · rintro st sqlNow req storedEngagement rfl id ts id' ts' h h' hmem hsoft hlater
    exact mem_boundedExclusions_of_later h h' hmem hsoft hlater
  · exact fun h => ⟨add_card_le_overfetch h, overfetch_le user poolSize, fun st distance =>
      ⟨min_le_countP_fetched st distance h, min_le_length_keepIds st distance h⟩⟩

/-- A household that owns one film, rejects another and was shown two. -/
def smallHousehold : UserContext where
  sub := "sub"
  kind := .movie
  libraryIds := {1}
  libraryTitleKeys := ∅
  libraryEmbeddings := ∅
  likedIds := ∅
  likedEmbeddings := ∅
  dislikedIds := ∅
  dislikedEmbeddings := ∅
  rejectedIds := {2}
  recentlyShownOrder := [3, 4]

/-- It is left two films, and 200 are asked for. -/
theorem retrieval_not_starved_small :
    2 + (boundedExclusions smallHousehold 2).card ≤ smallHousehold.overfetch 2 :=
  ((retrieval_not_starved smallHousehold 2).2.2.2 (by decide)).1

end EmeraldExchange.Recommender
