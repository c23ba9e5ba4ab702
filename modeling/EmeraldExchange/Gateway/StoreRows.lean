import EmeraldExchange.Gateway.Stores

/-!
# Rows that are read as they were written

The stores hold rows with an identifier and texts, and entries of members. What a file has is
cleaned row by row when it is read, so that a store holds rows whose identifiers are different and
safe and whose texts are cleaned. Such rows are read as they were written exactly when cleaning
their texts once more changes nothing
(`RowKind.parse_list_iff`), and entries exactly when each of them is
(`bySub_toRaw_iff`).
-/

namespace EmeraldExchange.Gateway

/-! ### Rows -/

section Rows

variable {α : Type} {id : α → ℕ}

theorem mem_firstWins {e : α} : ∀ {rows : List α} {seen : List ℕ},
    e ∈ firstWins id seen rows → e ∈ rows ∧ id e ∉ seen
  | [], seen, h => by cases h
  | d :: rows, seen, h => by
    rw [firstWins] at h
    split at h
    · exact (mem_firstWins h).imp_left (List.mem_cons_of_mem d)
    · next hd =>
      rcases List.mem_cons.mp h with rfl | h
      · exact ⟨List.mem_cons_self, hd⟩
      · obtain ⟨hmem, hseen⟩ := mem_firstWins h
        exact ⟨List.mem_cons_of_mem d hmem, fun he => hseen (List.mem_cons_of_mem _ he)⟩

theorem nodup_firstWins : ∀ (rows : List α) (seen : List ℕ),
    ((firstWins id seen rows).map id).Nodup
  | [], seen => List.nodup_nil
  | d :: rows, seen => by
    rw [firstWins]
    split
    · exact nodup_firstWins rows seen
    · refine List.nodup_cons.mpr ⟨fun h => ?_, nodup_firstWins rows _⟩
      obtain ⟨e, he, heq⟩ := List.mem_map.mp h
      exact (mem_firstWins he).2 (heq ▸ List.mem_cons_self)

theorem firstWins_of_nodup : ∀ {rows : List α} {seen : List ℕ}, (rows.map id).Nodup →
    (∀ e ∈ rows, id e ∉ seen) → firstWins id seen rows = rows
  | [], seen, _, _ => rfl
  | d :: rows, seen, h, hseen => by
    obtain ⟨hd, h⟩ := List.nodup_cons.mp (List.map_cons ▸ h)
    rw [firstWins, if_neg (hseen d List.mem_cons_self), firstWins_of_nodup h fun e he => ?_]
    refine List.not_mem_cons_of_ne_of_not_mem (fun heq => hd ?_)
      (hseen e (List.mem_cons_of_mem d he))
    exact heq ▸ List.mem_map_of_mem he

end Rows

theorem positiveInt_safe {v : JsonTree} {n : ℕ} (h : positiveInt v = some n) :
    0 < n ∧ n ≤ maxSafe := by
  obtain ⟨q, -, h⟩ := Option.bind_eq_some_iff.mp h
  split at h
  · next hq =>
    obtain rfl := Option.some.inj h
    obtain ⟨hint, hpos, hle⟩ := hq
    have hnum : (q.num : ℚ) = q := Rat.coe_int_num_of_den_eq_one (by simpa [Rat.isInt] using hint)
    have hpos' : 0 < q.num := Rat.num_pos.mpr hpos
    have hle' : q.num ≤ maxSafe := by
      rw [← hnum] at hle
      exact_mod_cast hle
    omega
  · cases h

theorem positiveInt_int {n : ℕ} (h : 0 < n ∧ n ≤ maxSafe) : positiveInt (.int n) = some n := by
  have hq : (n : ℚ).isInt = true ∧ 0 < (n : ℚ) ∧ (n : ℚ) ≤ maxSafe := by
    refine ⟨rfl, by exact_mod_cast h.1, by exact_mod_cast h.2⟩
  show (if _ then _ else _) = _
  rw [if_pos]
  · rfl
  · exact hq

/-- **How rows of a kind are read and written.** -/
structure RowKind (α : Type) where
  id : α → ℕ
  /-- What a row has besides texts. -/
  whole : α → Prop
  /-- The texts of a row, each with what it is cut off at. -/
  texts : α → List (ℕ × String)
  normalize : JsonTree → Option α
  tree : α → JsonTree

def Cleaned (x : ℕ × String) : Prop := ∃ raw, x.2 = cleanStr x.1 raw

theorem cleaned_cleanStr (max : ℕ) (raw : String) : Cleaned (max, cleanStr max raw) := ⟨raw, rfl⟩

theorem cleaned_empty (max : ℕ) : Cleaned (max, "") := ⟨"", (cleanStr_empty max).symm⟩

def IsTidy (x : ℕ × String) : Prop := Tidy x.2

namespace RowKind

variable {α : Type} (k : RowKind α)

/-- **Rows that a store may hold**, whose texts are of a kind. -/
structure Sound (Q : ℕ × String → Prop) (rows : List α) : Prop where
  nodup : (rows.map k.id).Nodup
  safe : ∀ e ∈ rows, 0 < k.id e ∧ k.id e ≤ maxSafe
  whole : ∀ e ∈ rows, k.whole e
  texts : ∀ e ∈ rows, ∀ x ∈ k.texts e, Q x

/-- What is read is cleaned, and what is written is read with its texts cleaned again. -/
structure Lawful : Prop where
  read : ∀ v e, k.normalize v = some e →
    (0 < k.id e ∧ k.id e ≤ maxSafe) ∧ k.whole e ∧ ∀ x ∈ k.texts e, Cleaned x
  reread : ∀ e, 0 < k.id e ∧ k.id e ≤ maxSafe → k.whole e → (∀ x ∈ k.texts e, Cleaned x) →
    ∃ e', k.normalize (k.tree e) = some e' ∧ k.id e' = k.id e ∧
      (e' = e ↔ ∀ x ∈ k.texts e, IsTidy x)

def parse (v : Option JsonTree) : List α := firstWins k.id [] ((rowsOf v).filterMap k.normalize)

def list (rows : List α) : JsonTree := .arr (rows.map k.tree)

variable {k} {Q : ℕ × String → Prop}

theorem sound_nil : k.Sound Q [] :=
  ⟨List.nodup_nil, List.forall_mem_nil _, List.forall_mem_nil _, List.forall_mem_nil _⟩

theorem sound_parse (hk : k.Lawful) (v : Option JsonTree) : k.Sound Cleaned (k.parse v) := by
  have hread : ∀ e ∈ k.parse v, (0 < k.id e ∧ k.id e ≤ maxSafe) ∧ k.whole e ∧
      ∀ x ∈ k.texts e, Cleaned x := by
    intro e he
    obtain ⟨v, -, hv⟩ := List.mem_filterMap.mp (mem_firstWins he).1
    exact hk.read v e hv
  exact ⟨nodup_firstWins _ [], fun e he => (hread e he).1, fun e he => (hread e he).2.1,
    fun e he => (hread e he).2.2⟩

/-- **Rows are read as they were written exactly when their texts are tidy.** -/
theorem parse_list_iff (hk : k.Lawful) {rows : List α} (hrows : k.Sound Cleaned rows) :
    k.parse (some (k.list rows)) = rows ↔ k.Sound IsTidy rows := by
  -- every row is read, with its identifier
  have hread : ∀ rows : List α, (∀ e ∈ rows, 0 < k.id e ∧ k.id e ≤ maxSafe) →
      (∀ e ∈ rows, k.whole e) → (∀ e ∈ rows, ∀ x ∈ k.texts e, Cleaned x) →
      ((rows.map k.tree).filterMap k.normalize).map k.id = rows.map k.id ∧
      ((rows.map k.tree).filterMap k.normalize = rows ↔
        ∀ e ∈ rows, ∀ x ∈ k.texts e, IsTidy x) := by
    intro rows
    induction rows with
    | nil =>
      intro _ _ _
      exact ⟨rfl, iff_of_true rfl (List.forall_mem_nil _)⟩
    | cons e rows ih =>
      intro hsafe hwhole hclean
      obtain ⟨hsafe₀, hsafe⟩ := List.forall_mem_cons.mp hsafe
      obtain ⟨hwhole₀, hwhole⟩ := List.forall_mem_cons.mp hwhole
      obtain ⟨hclean₀, hclean⟩ := List.forall_mem_cons.mp hclean
      obtain ⟨e', he', hid, hiff⟩ := hk.reread e hsafe₀ hwhole₀ hclean₀
      obtain ⟨hids, hrest⟩ := ih hsafe hwhole hclean
      rw [List.map_cons, List.filterMap_cons_some he', List.map_cons, List.map_cons, hid, hids]
      refine ⟨rfl, ?_⟩
      rw [List.cons.injEq, hiff, hrest, List.forall_mem_cons]
  obtain ⟨hids, hiff⟩ := hread rows hrows.safe hrows.whole hrows.texts
  have hkept : k.parse (some (k.list rows)) = (rows.map k.tree).filterMap k.normalize := by
    refine firstWins_of_nodup ?_ fun _ _ => List.not_mem_nil
    show (((rows.map k.tree).filterMap k.normalize).map k.id).Nodup
    rw [hids]
    exact hrows.nodup
  rw [hkept, hiff]
  exact ⟨fun h => ⟨hrows.nodup, hrows.safe, hrows.whole, h⟩, fun h => h.texts⟩

/-! What the mutations do to rows. -/

theorem Sound.filter {rows : List α} (h : k.Sound Q rows) (p : α → Bool) :
    k.Sound Q (rows.filter p) :=
  ⟨h.nodup.sublist (List.filter_sublist.map k.id),
    fun e he => h.safe e (List.mem_of_mem_filter he),
    fun e he => h.whole e (List.mem_of_mem_filter he),
    fun e he => h.texts e (List.mem_of_mem_filter he)⟩

theorem Sound.append {rows : List α} (h : k.Sound Q rows) {e : α} (hnew : k.id e ∉ rows.map k.id)
    (hsafe : 0 < k.id e ∧ k.id e ≤ maxSafe) (hwhole : k.whole e) (htexts : ∀ x ∈ k.texts e, Q x) :
    k.Sound Q (rows ++ [e]) := by
  constructor
  · rw [List.map_append, List.map_singleton]
    exact h.nodup.append (List.nodup_singleton _) (List.disjoint_singleton.mpr hnew)
  · exact List.forall_mem_append.mpr ⟨h.safe, List.forall_mem_singleton.mpr hsafe⟩
  · exact List.forall_mem_append.mpr ⟨h.whole, List.forall_mem_singleton.mpr hwhole⟩
  · exact List.forall_mem_append.mpr ⟨h.texts, List.forall_mem_singleton.mpr htexts⟩

theorem mem_modify {f : α → α} {e : α} : ∀ {rows : List α} {i : ℕ}, e ∈ rows.modify i f →
    e ∈ rows ∨ ∃ d ∈ rows, e = f d
  | [], i, h => by simp at h
  | d :: rows, 0, h => by
    rw [List.modify_zero_cons] at h
    rcases List.mem_cons.mp h with rfl | h
    · exact Or.inr ⟨d, List.mem_cons_self, rfl⟩
    · exact Or.inl (List.mem_cons_of_mem d h)
  | d :: rows, i + 1, h => by
    rw [List.modify_succ_cons] at h
    rcases List.mem_cons.mp h with rfl | h
    · exact Or.inl List.mem_cons_self
    · rcases mem_modify h with h | ⟨d', hd', he⟩
      · exact Or.inl (List.mem_cons_of_mem d h)
      · exact Or.inr ⟨d', List.mem_cons_of_mem d hd', he⟩

theorem map_modify_of_eq {f : α → α} {g : α → ℕ} (hg : ∀ e, g (f e) = g e) :
    ∀ (rows : List α) (i : ℕ), (rows.modify i f).map g = rows.map g
  | [], i => by simp
  | d :: rows, 0 => by rw [List.modify_zero_cons, List.map_cons, List.map_cons, hg]
  | d :: rows, i + 1 => by
    rw [List.modify_succ_cons, List.map_cons, List.map_cons, map_modify_of_eq hg rows i]

theorem Sound.modify {rows : List α} (h : k.Sound Q rows) (i : ℕ) {f : α → α}
    (hid : ∀ e, k.id (f e) = k.id e) (hwhole : ∀ e, k.whole e → k.whole (f e))
    (htexts : ∀ e, ∀ x ∈ k.texts (f e), Q x) : k.Sound Q (rows.modify i f) := by
  constructor
  · rw [map_modify_of_eq hid]
    exact h.nodup
  · intro e he
    rcases mem_modify he with he | ⟨d, hd, rfl⟩
    · exact h.safe e he
    · rw [hid]
      exact h.safe d hd
  · intro e he
    rcases mem_modify he with he | ⟨d, hd, rfl⟩
    · exact h.whole e he
    · exact hwhole d (h.whole d hd)
  · intro e he
    rcases mem_modify he with he | ⟨d, -, rfl⟩
    · exact h.texts e he
    · exact htexts d

end RowKind

/-! The two kinds of rows. -/

def idTitleRows : RowKind IdTitle where
  id := IdTitle.id
  whole _ := True
  texts e := [(maxTitleLen, e.title)]
  normalize := normalizeIdTitle
  tree := IdTitle.tree

theorem lawful_idTitleRows : idTitleRows.Lawful := by
  constructor
  · intro v e h
    simp only [idTitleRows, normalizeIdTitle] at h ⊢
    rw [List.forall_mem_singleton]
    split at h
    · next id hid =>
      obtain rfl := Option.some.inj h
      exact ⟨positiveInt_safe hid, trivial, cleaned_empty maxTitleLen⟩
    · obtain ⟨w, -, h⟩ := Option.bind_eq_some_iff.mp h
      obtain ⟨id, hid, h⟩ := Option.bind_eq_some_iff.mp h
      obtain rfl := Option.some.inj h
      exact ⟨positiveInt_safe hid, trivial, cleaned_cleanStr maxTitleLen _⟩
  · rintro ⟨id, title⟩ hsafe - hclean
    obtain ⟨raw, htitle⟩ := hclean (maxTitleLen, title) List.mem_cons_self
    obtain rfl : title = cleanStr maxTitleLen raw := htitle
    refine ⟨⟨id, sanitizeTitle (cleanStr maxTitleLen raw)⟩, ?_, rfl, ?_⟩
    · have hint : positiveInt (.int id) = some id := positiveInt_int hsafe
      have hobj : positiveInt (IdTitle.tree ⟨id, cleanStr maxTitleLen raw⟩) = none := rfl
      simp only [idTitleRows, normalizeIdTitle, hobj]
      simp [IdTitle.tree, JsonTree.get, hint, strOf, JsonTree.asStr]
    · rw [IdTitle.mk.injEq, sanitizeTitle_eq, cleanStr_cleanStr_iff]
      simp [idTitleRows, IsTidy]

def watchRows : RowKind WatchEntry where
  id := WatchEntry.id
  whole e := e.addedAt ≠ "" ∧ e.posterPath ≠ some ""
  texts e := (maxWatchlistStrLen, e.title) ::
    (e.posterPath.map fun p => (maxWatchlistStrLen, p)).toList
  normalize := normalizeWatchEntry
  tree := WatchEntry.tree

theorem addedAtOf_ne (v : Option JsonTree) : addedAtOf v ≠ "" := by
  rw [addedAtOf]
  split
  · decide
  · next hne => exact hne

theorem addedAtOf_str {s : String} (h : s ≠ "") : addedAtOf (some (.str s)) = s := if_neg h

theorem cleanPoster_eq_some {raw poster : String} : cleanPoster raw = some poster ↔
    poster = cleanStr maxWatchlistStrLen raw ∧ poster ≠ "" := by
  rw [cleanPoster, sanitizeWatchlistStr]
  split
  · next h =>
    rw [h]
    constructor
    · rintro ⟨⟩
    · rintro ⟨rfl, hne⟩
      exact absurd rfl hne
  · next h =>
    rw [Option.some.injEq, eq_comm]
    constructor
    · rintro rfl
      exact ⟨rfl, h⟩
    · exact And.left

theorem lawful_watchRows : watchRows.Lawful := by
  constructor
  · rintro v ⟨id, title, addedAt, posterPath⟩ h
    obtain ⟨w, -, h⟩ := Option.bind_eq_some_iff.mp h
    obtain ⟨id', hid, h⟩ := Option.bind_eq_some_iff.mp h
    obtain ⟨rfl, htitle, hadded, hposter⟩ := WatchEntry.mk.inj (Option.some.inj h)
    refine ⟨positiveInt_safe hid, ⟨?_, ?_⟩, ?_⟩
    · exact hadded ▸ addedAtOf_ne _
    · rintro rfl
      exact (cleanPoster_eq_some.mp hposter).2 rfl
    · intro x hx
      rcases List.mem_cons.mp hx with rfl | hx
      · exact ⟨_, htitle.symm⟩
      · obtain ⟨poster, rfl, rfl⟩ := Option.map_eq_some_iff.mp (Option.mem_toList.mp hx)
        exact ⟨_, (cleanPoster_eq_some.mp hposter).1⟩
  · rintro ⟨id, title, addedAt, posterPath⟩ hsafe ⟨hadded, hposter⟩ hclean
    obtain ⟨raw, htitle⟩ := hclean (maxWatchlistStrLen, title) List.mem_cons_self
    obtain rfl : title = cleanStr maxWatchlistStrLen raw := htitle
    have hint : positiveInt (.int id) = some id := positiveInt_int hsafe
    have hadded' : addedAtOf (some (.str addedAt)) = addedAt := addedAtOf_str hadded
    have htitle' := cleanStr_cleanStr_iff maxWatchlistStrLen raw
    rcases posterPath with _ | poster
    · refine ⟨⟨id, cleanStr maxWatchlistStrLen (cleanStr maxWatchlistStrLen raw), addedAt, none⟩,
        ?_, rfl, ?_⟩
      · have hnone : cleanPoster "" = none := by
          rw [cleanPoster, sanitizeWatchlistStr, cleanStr_empty]
          rfl
        simp [watchRows, normalizeWatchEntry, WatchEntry.tree, JsonTree.get, hint, hadded', strOf,
          JsonTree.asStr, sanitizeWatchlistStr, hnone]
      · rw [WatchEntry.mk.injEq, htitle']
        simp [watchRows, IsTidy]
    · obtain ⟨rawPoster, hcleaned⟩ := hclean (maxWatchlistStrLen, poster)
        (List.mem_cons_of_mem _ List.mem_cons_self)
      obtain rfl : poster = cleanStr maxWatchlistStrLen rawPoster := hcleaned
      have hne := cleanStr_cleanStr_ne fun h => hposter (congrArg some h)
      have hsome := cleanPoster_eq_some.mpr
        ⟨rfl, hne⟩
      refine ⟨⟨id, cleanStr maxWatchlistStrLen (cleanStr maxWatchlistStrLen raw), addedAt,
        some (cleanStr maxWatchlistStrLen (cleanStr maxWatchlistStrLen rawPoster))⟩, ?_, rfl, ?_⟩
      · simp [watchRows, normalizeWatchEntry, WatchEntry.tree, JsonTree.get, hint, hadded', strOf,
          JsonTree.asStr, sanitizeWatchlistStr, hsome]
      · rw [WatchEntry.mk.injEq, htitle', Option.some.injEq, cleanStr_cleanStr_iff]
        simp [watchRows, IsTidy]

/-! ### Entries of members -/

section Members

variable {τ : Type} {P T : τ → Prop} {f : JsonTree → τ} {g : τ → JsonTree}

def Keyed (P : τ → Prop) (m : IndexMap String τ) : Prop := ∀ e ∈ m.entries, e.1 ≠ "" ∧ P e.2

theorem keyed_bySub (hf : ∀ v, P (f v)) (raw : Raw) : Keyed P (bySub f raw) := by
  intro e he
  obtain ⟨d, hd, rfl⟩ := List.mem_map.mp he
  exact ⟨by simpa using (List.mem_filter.mp hd).2, hf d.2⟩

/-- **Entries are read as they were written exactly when each of them is.** -/
theorem bySub_toRaw_iff {m : IndexMap String τ} (hm : Keyed P m)
    (hread : ∀ t, P t → (f (g t) = t ↔ T t)) : bySub f (toRaw g m) = m ↔ Keyed T m := by
  have hentries : (bySub f (toRaw g m)).entries = m.entries.map fun e => (e.1, f (g e.2)) := by
    have hkeys : (toRaw g m).entries.filter (fun e => e.1 ≠ "") = (toRaw g m).entries := by
      refine List.filter_eq_self.mpr fun e he => ?_
      obtain ⟨d, hd, rfl⟩ := List.mem_map.mp he
      simpa using (hm d (List.mem_of_mem_filter hd)).1
    rw [bySub, IndexMap.mapKeep]
    dsimp only
    rw [hkeys, toRaw, IndexMap.mapKeep]
    simp
  have heach : ∀ e ∈ m.entries, ((e.1, f (g e.2)) = e ↔ e.1 ≠ "" ∧ T e.2) := by
    intro e he
    rw [← hread e.2 (hm e he).2, Prod.ext_iff]
    exact ⟨fun h => ⟨(hm e he).1, h.2⟩, fun h => ⟨rfl, h.2⟩⟩
  have hmap : m.entries.map (fun e => (e.1, f (g e.2))) = m.entries ↔ Keyed T m := by
    constructor
    · intro h e he
      have hid := List.map_inj_left.mp (h.trans (List.map_id _).symm) e he
      exact (heach e he).mp hid
    · intro h
      refine (List.map_congr_left fun e he => ?_).trans (List.map_id _)
      exact (heach e he).mpr (h e he)
  rw [← hmap, ← hentries]
  exact ⟨congrArg IndexMap.entries, IndexMap.ext_entries⟩

theorem Keyed.insert {m : IndexMap String τ} (hm : Keyed P m) {sub : String} (hsub : sub ≠ "")
    {t : τ} (ht : P t) : Keyed P (m.insert sub t) := by
  intro e he
  have hlookup := IndexMap.lookup_eq_some.mpr he
  rw [IndexMap.lookup_insert] at hlookup
  split at hlookup
  · next heq =>
    obtain rfl := Option.some.inj hlookup
    exact ⟨heq ▸ hsub, ht⟩
  · exact hm e (IndexMap.lookup_eq_some.mp hlookup)

theorem Keyed.clearSub {m m' : IndexMap String τ} (hm : Keyed P m) {sub : String}
    (h : clearSub m sub = some m') : Keyed P m' := by
  rw [Gateway.clearSub] at h
  split at h
  · obtain rfl := Option.some.inj h
    exact fun e he => hm e (List.mem_of_mem_filter he)
  · cases h

theorem Keyed.lookup {m : IndexMap String τ} (hm : Keyed P m) {sub : String} {t : τ}
    (h : m.lookup sub = some t) : P t := (hm _ (IndexMap.lookup_eq_some.mp h)).2

end Members

end EmeraldExchange.Gateway
