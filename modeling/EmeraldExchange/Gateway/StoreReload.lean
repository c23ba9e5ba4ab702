import EmeraldExchange.Gateway.StoreRows

/-!
# What a restart leaves of the stores

The four stores are read again after a restart, and cleaned as they are read. What they hold is
within the bounds of the cleaning whatever was done to them, and all that the cleaning may still
change is a text that was cut off after a blank, which it trims: the stores survive exactly where
there is no such text (`Household.survives_restart`). A title of a client
may be such a text (`Household.not_survives_cut`).
-/

namespace EmeraldExchange.Gateway

open Auth Words

/-! ### The four stores -/

variable {Q : ℕ × String → Prop}

/-! The signals. -/

/-- The texts that a mutation writes, and what each is cut off at. -/
def FeedbackMutation.texts : FeedbackMutation → List (ℕ × String)
  | .set _ _ _ title (some _) => [(maxTitleLen, cleanStr maxTitleLen title)]
  | .set _ _ _ _ none => []
  | .clearUser _ => []
  | .updateLikedTitleIfPresent _ _ _ title => [(maxTitleLen, cleanStr maxTitleLen title)]

structure KindLists.Sound (Q : ℕ × String → Prop) (lists : KindLists) : Prop where
  liked : idTitleRows.Sound Q lists.liked
  disliked : idTitleRows.Sound Q lists.disliked

structure UserFeedback.Sound (Q : ℕ × String → Prop) (user : UserFeedback) : Prop where
  movie : user.movie.Sound Q
  tv : user.tv.Sound Q

theorem sound_parseKindLists (v : Option JsonTree) : (parseKindLists v).Sound Cleaned :=
  ⟨RowKind.sound_parse lawful_idTitleRows _, RowKind.sound_parse lawful_idTitleRows _⟩

theorem parseKindLists_tree_iff {lists : KindLists} (h : lists.Sound Cleaned) :
    parseKindLists (some lists.tree) = lists ↔ lists.Sound IsTidy := by
  have hliked := RowKind.parse_list_iff lawful_idTitleRows h.liked
  have hdisliked := RowKind.parse_list_iff lawful_idTitleRows h.disliked
  obtain ⟨liked, disliked⟩ := lists
  have hparse : parseKindLists (some (KindLists.tree ⟨liked, disliked⟩)) =
      ⟨idTitleRows.parse (some (idTitleRows.list liked)),
        idTitleRows.parse (some (idTitleRows.list disliked))⟩ := by
    obtain ⟨h₁, h₂⟩ := JsonTree.get_pair (show "liked" ≠ "disliked" by decide)
      (idTitleRows.list liked) (idTitleRows.list disliked)
    exact congrArg₂ KindLists.mk (congrArg idTitleRows.parse h₁) (congrArg idTitleRows.parse h₂)
  rw [hparse, KindLists.mk.injEq, hliked, hdisliked]
  exact ⟨fun h => ⟨h.1, h.2⟩, fun h => ⟨h.liked, h.disliked⟩⟩

theorem parseUserFeedback_tree_iff {user : UserFeedback} (h : user.Sound Cleaned) :
    parseUserFeedback user.tree = user ↔ user.Sound IsTidy := by
  have hmovie := parseKindLists_tree_iff h.movie
  have htv := parseKindLists_tree_iff h.tv
  obtain ⟨movie, tv⟩ := user
  have hparse : parseUserFeedback (UserFeedback.tree ⟨movie, tv⟩) =
      ⟨parseKindLists (some movie.tree), parseKindLists (some tv.tree)⟩ := by
    obtain ⟨h₁, h₂⟩ := JsonTree.get_pair (show "movie" ≠ "tv" by decide) movie.tree tv.tree
    exact congrArg₂ UserFeedback.mk (congrArg parseKindLists h₁) (congrArg parseKindLists h₂)
  rw [hparse, UserFeedback.mk.injEq, hmovie, htv]
  exact ⟨fun h => ⟨h.1, h.2⟩, fun h => ⟨h.movie, h.tv⟩⟩

def FeedbackFile.Sound (Q : ℕ × String → Prop) (file : FeedbackFile) : Prop :=
  Keyed (UserFeedback.Sound Q) (.ofTable file)

theorem UserFeedback.Sound.kind {user : UserFeedback} (h : user.Sound Q) (kind : Kind) :
    (user.kind kind).Sound Q := by
  rcases kind with _ | _
  · exact h.movie
  · exact h.tv

theorem UserFeedback.Sound.setKind {user : UserFeedback} (h : user.Sound Q) (kind : Kind)
    {lists : KindLists} (hlists : lists.Sound Q) : (user.setKind kind lists).Sound Q := by
  rcases kind with _ | _
  · exact ⟨hlists, h.tv⟩
  · exact ⟨h.movie, hlists⟩

theorem UserFeedback.sound_empty : UserFeedback.empty.Sound Q :=
  ⟨⟨RowKind.sound_nil, RowKind.sound_nil⟩, ⟨RowKind.sound_nil, RowKind.sound_nil⟩⟩

theorem sound_move {rows : List IdTitle} (h : idTitleRows.Sound Q rows) {id : SafeId}
    {title : String} (htitle : Q (maxTitleLen, title)) :
    idTitleRows.Sound Q (rows.filter (·.id ≠ id.val) ++ [⟨id.val, title⟩]) := by
  refine (h.filter _).append ?_ ⟨id.pos, id.le⟩ trivial (List.forall_mem_singleton.mpr htitle)
  intro hmem
  obtain ⟨e, he, heq⟩ := List.mem_map.mp hmem
  have hne := (List.mem_filter.mp he).2
  exact (of_decide_eq_true hne) heq

/-- **One signal is set**; its title is the new one or one that was known. -/
theorem KindLists.Sound.set {lists : KindLists} (h : lists.Sound Q) {id : SafeId} {title : String}
    (htitle : Q (maxTitleLen, title)) (hempty : Q (maxTitleLen, "")) (next : Signal) :
    (lists.set id.val title (some next)).Sound Q := by
  have hkept : Q (maxTitleLen, if title = "" then
      (((lists.liked ++ lists.disliked).find? fun e => e.id = id.val).map (·.title)).getD ""
      else title) := by
    split
    · rcases hfind : (lists.liked ++ lists.disliked).find? fun e => e.id = id.val with _ | e
      · rw [hfind]
        exact hempty
      · rw [hfind]
        rcases List.mem_append.mp (List.mem_of_find?_eq_some hfind) with he | he
        · exact h.liked.texts e he _ List.mem_cons_self
        · exact h.disliked.texts e he _ List.mem_cons_self
    · exact htitle
  rcases next with _ | _
  · exact ⟨sound_move h.liked hkept, h.disliked.filter _⟩
  · exact ⟨h.liked.filter _, sound_move h.disliked hkept⟩

theorem sound_retitle {rows : List IdTitle} (h : idTitleRows.Sound Q rows) (i : ℕ)
    {title : String} (htitle : Q (maxTitleLen, title)) :
    idTitleRows.Sound Q (rows.modify i fun e => { e with title }) :=
  h.modify i (fun _ => rfl) (fun _ => id) fun _ => List.forall_mem_singleton.mpr htitle

namespace FeedbackFile.Sound

variable {file file' : FeedbackFile}

theorem lookup (h : file.Sound Q) {sub : String} {user : UserFeedback}
    (hlookup : file.lookup sub = some user) : user.Sound Q := by
  refine (h (sub, user) ?_).2
  exact List.mem_map.mpr ⟨⟨sub, user⟩, AList.mem_lookup_iff.mp hlookup, rfl⟩

theorem user (h : file.Sound Q) (sub : String) : (file.user sub).Sound Q := by
  rw [FeedbackFile.user]
  rcases hlookup : file.lookup sub with _ | user
  · exact UserFeedback.sound_empty
  · exact h.lookup hlookup

theorem insert (h : file.Sound Q) {sub : String} (hsub : sub ≠ "") {user : UserFeedback}
    (huser : user.Sound Q) : FeedbackFile.Sound Q (Table.insert sub user file) := by
  intro e he
  obtain ⟨d, hd, rfl⟩ := List.mem_map.mp he
  rw [AList.entries_insert] at hd
  rcases List.mem_cons.mp hd with rfl | hd
  · exact ⟨hsub, huser⟩
  · exact h _ (List.mem_map.mpr ⟨d, (List.kerase_sublist _ _).subset hd, rfl⟩)

/-- **A mutation** whose texts are of a kind. -/
theorem apply (h : file.Sound Q) (hempty : Q (maxTitleLen, "")) {m : FeedbackMutation}
    (hm : ∀ x ∈ m.texts, Q x) (happly : feedbackStore.apply m file = some file') :
    file'.Sound Q := by
  rcases m with ⟨sub, kind, id, title, next⟩ | sub | ⟨sub, kind, id, title⟩
  · obtain rfl := Option.some.inj happly
    have hlists := (h.user sub.val).kind kind
    refine h.insert sub.ne ((h.user sub.val).setKind kind ?_)
    rcases next with _ | next
    · exact ⟨hlists.liked.filter _, hlists.disliked.filter _⟩
    · exact hlists.set (hm _ List.mem_cons_self) hempty next
  · simp only [feedbackStore, FeedbackFile.clearUser] at happly
    split at happly
    · obtain rfl := Option.some.inj happly
      intro e he
      obtain ⟨d, hd, rfl⟩ := List.mem_map.mp he
      exact h _ (List.mem_map.mpr ⟨d, (List.kerase_sublist _ _).subset hd, rfl⟩)
    · cases happly
  · simp only [feedbackStore, FeedbackFile.updateLikedTitleIfPresent] at happly
    split at happly
    · cases happly
    · obtain ⟨user, hlookup, happly⟩ := Option.bind_eq_some_iff.mp happly
      obtain ⟨row, -, happly⟩ := Option.bind_eq_some_iff.mp happly
      split at happly
      · cases happly
      · obtain rfl := Option.some.inj happly
        have htitle := hm _ List.mem_cons_self
        have huser := h.lookup hlookup
        exact h.insert sub.ne (huser.setKind kind
          ⟨sound_retitle (huser.kind kind).liked _ htitle, (huser.kind kind).disliked⟩)

end FeedbackFile.Sound

/-! The veto. -/

def RejectionsMutation.texts : RejectionsMutation → List (ℕ × String)
  | .add _ _ title => [(maxTitleLen, cleanStr maxTitleLen title)]
  | .updateTitleIfPresent _ _ title => [(maxTitleLen, cleanStr maxTitleLen title)]
  | .remove _ _ => []

structure Rejections.Sound (Q : ℕ × String → Prop) (r : Rejections) : Prop where
  movie : idTitleRows.Sound Q r.movie
  tv : idTitleRows.Sound Q r.tv

theorem sound_parseRejections (raw : Raw) : (parseRejections raw).Sound Cleaned :=
  ⟨RowKind.sound_parse lawful_idTitleRows _, RowKind.sound_parse lawful_idTitleRows _⟩

theorem parseRejections_raw_iff {r : Rejections} (h : r.Sound Cleaned) :
    parseRejections r.raw = r ↔ r.Sound IsTidy := by
  have hmovie := RowKind.parse_list_iff lawful_idTitleRows h.movie
  have htv := RowKind.parse_list_iff lawful_idTitleRows h.tv
  obtain ⟨movie, tv⟩ := r
  have hparse : parseRejections (Rejections.raw ⟨movie, tv⟩) =
      ⟨idTitleRows.parse (some (idTitleRows.list movie)),
        idTitleRows.parse (some (idTitleRows.list tv))⟩ := by
    have h₁ : (Rejections.raw ⟨movie, tv⟩).lookup "movie" = some (idTitleRows.list movie) :=
      IndexMap.lookup_eq_some.mpr List.mem_cons_self
    have h₂ : (Rejections.raw ⟨movie, tv⟩).lookup "tv" = some (idTitleRows.list tv) :=
      IndexMap.lookup_eq_some.mpr (List.mem_cons_of_mem _ List.mem_cons_self)
    exact congrArg₂ Rejections.mk (congrArg idTitleRows.parse h₁) (congrArg idTitleRows.parse h₂)
  rw [hparse, Rejections.mk.injEq, hmovie, htv]
  exact ⟨fun h => ⟨h.1, h.2⟩, fun h => ⟨h.movie, h.tv⟩⟩

namespace Rejections.Sound

variable {r r' : Rejections}

theorem kind (h : r.Sound Q) (kind : Kind) : idTitleRows.Sound Q (r.kind kind) := by
  rcases kind with _ | _
  · exact h.movie
  · exact h.tv

theorem setKind (h : r.Sound Q) (kind : Kind) {rows : List IdTitle}
    (hrows : idTitleRows.Sound Q rows) : (r.setKind kind rows).Sound Q := by
  rcases kind with _ | _
  · exact ⟨hrows, h.tv⟩
  · exact ⟨h.movie, hrows⟩

/-- **A mutation** whose texts are of a kind. -/
theorem apply (h : r.Sound Q) {m : RejectionsMutation} (hm : ∀ x ∈ m.texts, Q x)
    (happly : rejectionsStore.apply m r = some r') : r'.Sound Q := by
  rcases m with ⟨kind, id, title⟩ | ⟨kind, id, title⟩ | ⟨kind, id⟩
  · have htitle := hm _ List.mem_cons_self
    simp only [rejectionsStore, Rejections.add] at happly
    split at happly
    · cases happly
    · split at happly
      · obtain rfl := Option.some.inj happly
        exact h.setKind kind (sound_retitle (h.kind kind) _ htitle)
      · next hnone =>
        obtain rfl := Option.some.inj happly
        refine h.setKind kind ((h.kind kind).append ?_ ⟨id.pos, id.le⟩ trivial
          (List.forall_mem_singleton.mpr htitle))
        intro hmem
        obtain ⟨e, he, heq⟩ := List.mem_map.mp hmem
        exact absurd (decide_eq_true heq) (List.findIdx?_eq_none_iff.mp hnone e he ▸ by simp)
  · simp only [rejectionsStore, Rejections.updateTitleIfPresent] at happly
    split at happly
    · cases happly
    · obtain ⟨row, -, happly⟩ := Option.bind_eq_some_iff.mp happly
      split at happly
      · cases happly
      · obtain rfl := Option.some.inj happly
        exact h.setKind kind (sound_retitle (h.kind kind) _ (hm _ List.mem_cons_self))
  · simp only [rejectionsStore, Rejections.remove] at happly
    split at happly
    · obtain rfl := Option.some.inj happly
      exact h.setKind kind ((h.kind kind).filter _)
    · cases happly

end Rejections.Sound

/-! The watch lists. -/

def WatchlistMutation.texts : WatchlistMutation → List (ℕ × String)
  | .upsert _ _ _ title posterPath _ _ =>
    (maxWatchlistStrLen, cleanStr maxWatchlistStrLen title) ::
      ((posterPath.bind cleanPoster).map fun p => (maxWatchlistStrLen, p)).toList
  | .clearUser _ => []
  | .remove _ _ _ => []

structure UserWatchlist.Sound (Q : ℕ × String → Prop) (w : UserWatchlist) : Prop where
  movie : watchRows.Sound Q w.movie
  tv : watchRows.Sound Q w.tv

theorem parseUserWatchlist_tree_iff {w : UserWatchlist} (h : w.Sound Cleaned) :
    parseUserWatchlist w.tree = w ↔ w.Sound IsTidy := by
  have hmovie := RowKind.parse_list_iff lawful_watchRows h.movie
  have htv := RowKind.parse_list_iff lawful_watchRows h.tv
  obtain ⟨movie, tv⟩ := w
  have hparse : parseUserWatchlist (UserWatchlist.tree ⟨movie, tv⟩) =
      ⟨watchRows.parse (some (watchRows.list movie)),
        watchRows.parse (some (watchRows.list tv))⟩ := by
    obtain ⟨h₁, h₂⟩ := JsonTree.get_pair (show "movie" ≠ "tv" by decide) (watchRows.list movie)
      (watchRows.list tv)
    exact congrArg₂ UserWatchlist.mk (congrArg watchRows.parse h₁) (congrArg watchRows.parse h₂)
  rw [hparse, UserWatchlist.mk.injEq, hmovie, htv]
  exact ⟨fun h => ⟨h.1, h.2⟩, fun h => ⟨h.movie, h.tv⟩⟩

/-- The watch list of every member is sound. -/
def WatchlistFile.Sound (Q : ℕ × String → Prop) (file : WatchlistFile) : Prop :=
  Keyed (UserWatchlist.Sound Q) file

theorem UserWatchlist.Sound.kind {w : UserWatchlist} (h : w.Sound Q) (kind : Kind) :
    watchRows.Sound Q (w.kind kind) := by
  rcases kind with _ | _
  · exact h.movie
  · exact h.tv

theorem UserWatchlist.Sound.setKind {w : UserWatchlist} (h : w.Sound Q) (kind : Kind)
    {rows : List WatchEntry} (hrows : watchRows.Sound Q rows) : (w.setKind kind rows).Sound Q := by
  rcases kind with _ | _
  · exact ⟨hrows, h.tv⟩
  · exact ⟨h.movie, hrows⟩

/-- **A mutation** whose texts are of a kind. -/
theorem WatchlistFile.Sound.apply {file file' : WatchlistFile} (h : file.Sound Q)
    {m : WatchlistMutation} (hm : ∀ x ∈ m.texts, Q x)
    (happly : watchlistStore.apply m file = some file') : file'.Sound Q := by
  rcases m with ⟨sub, kind, id, title, posterPath, now, hnow⟩ | sub | ⟨sub, kind, id⟩
  · obtain rfl := Option.some.inj happly
    have huser : ((file.lookup sub.val).getD .empty).Sound Q := by
      rcases hlookup : file.lookup sub.val with _ | user
      · exact ⟨RowKind.sound_nil, RowKind.sound_nil⟩
      · exact Keyed.lookup h hlookup
    have hposter : posterPath.bind cleanPoster ≠ some "" := by
      intro hp
      obtain ⟨raw, -, hraw⟩ := Option.bind_eq_some_iff.mp hp
      exact (cleanPoster_eq_some.mp hraw).2 rfl
    refine Keyed.insert h sub.ne (huser.setKind kind ?_)
    split
    · exact (huser.kind kind).modify _ (fun _ => rfl) (fun _ hwhole => ⟨hwhole.1, hposter⟩)
        fun _ => hm
    · next hnone =>
      refine (huser.kind kind).append ?_ ⟨id.pos, id.le⟩ ⟨hnow, hposter⟩ hm
      intro hmem
      obtain ⟨e, he, heq⟩ := List.mem_map.mp hmem
      exact absurd (decide_eq_true heq) (List.findIdx?_eq_none_iff.mp hnone e he ▸ by simp)
  · exact Keyed.clearSub h happly
  · obtain ⟨user, hlookup, happly⟩ := Option.bind_eq_some_iff.mp happly
    dsimp only at happly
    split at happly
    · cases happly
    · obtain rfl := Option.some.inj happly
      have huser : user.Sound Q := Keyed.lookup h hlookup
      exact Keyed.insert h sub.ne (huser.setKind kind ((huser.kind kind).filter _))

/-! The policies. -/

theorem normalizePolicy_tree (p : Policy) : normalizePolicy p.tree = p := by
  obtain ⟨rating, sections, kid⟩ := p
  have hget : ∀ a b c : JsonTree,
      (JsonTree.obj [("maxContentRating", a), ("allowedSections", b), ("kid", c)]).get
        "maxContentRating" = some a ∧
      (JsonTree.obj [("maxContentRating", a), ("allowedSections", b), ("kid", c)]).get
        "allowedSections" = some b ∧
      (JsonTree.obj [("maxContentRating", a), ("allowedSections", b), ("kid", c)]).get "kid" =
        some c := by
    intro a b c
    simp [JsonTree.get]
  have hrating : normalizeRating (some ((rating.map fun r => JsonTree.str r.val).getD .null)) =
      rating := by
    rcases rating with _ | ⟨rating, hmem⟩
    · rfl
    · exact dif_pos hmem
  have hsections : normalizeSections (some ((sections.map Sections.tree).getD .null)) =
      sections := by
    rcases sections with _ | ⟨live, downloads, arr⟩
    · rfl
    · have hgetSection : ∀ a b c : JsonTree,
          (JsonTree.obj [("live", a), ("downloads", b), ("arr", c)]).get "live" = some a ∧
          (JsonTree.obj [("live", a), ("downloads", b), ("arr", c)]).get "downloads" = some b ∧
          (JsonTree.obj [("live", a), ("downloads", b), ("arr", c)]).get "arr" = some c := by
        intro a b c
        simp [JsonTree.get]
      obtain ⟨h₁, h₂, h₃⟩ := hgetSection (.bool live) (.bool downloads) (.bool arr)
      show some (Sections.mk (allowed _ _) (allowed _ _) (allowed _ _)) = _
      rw [allowed, allowed, allowed, h₁, h₂, h₃]
      cases live <;> cases downloads <;> cases arr <;> rfl
  obtain ⟨h₁, h₂, h₃⟩ := hget ((rating.map fun r => JsonTree.str r.val).getD .null)
    ((sections.map Sections.tree).getD .null) (.bool kid)
  rw [normalizePolicy, Policy.tree, h₁, h₂, h₃, hrating, hsections]
  cases kid <;> rfl

def PoliciesFile.Sound (file : PoliciesFile) : Prop := Keyed (fun _ => True) file

/-! ### Each store reads what it wrote -/

def Uncut (texts : List (ℕ × String)) : Prop := ∀ x ∈ texts, IsTidy x

instance (texts : List (ℕ × String)) : Decidable (Uncut texts) :=
  inferInstanceAs (Decidable (∀ x ∈ texts, Tidy x.2))

theorem cleaned_texts_feedback (m : FeedbackMutation) : ∀ x ∈ m.texts, Cleaned x := by
  rcases m with ⟨sub, kind, id, title, _ | next⟩ | sub | ⟨sub, kind, id, title⟩
  · exact List.forall_mem_nil _
  · exact List.forall_mem_singleton.mpr (cleaned_cleanStr _ _)
  · exact List.forall_mem_nil _
  · exact List.forall_mem_singleton.mpr (cleaned_cleanStr _ _)

theorem cleaned_texts_rejections (m : RejectionsMutation) : ∀ x ∈ m.texts, Cleaned x := by
  rcases m with ⟨kind, id, title⟩ | ⟨kind, id, title⟩ | ⟨kind, id⟩
  · exact List.forall_mem_singleton.mpr (cleaned_cleanStr _ _)
  · exact List.forall_mem_singleton.mpr (cleaned_cleanStr _ _)
  · exact List.forall_mem_nil _

theorem cleaned_texts_watchlist (m : WatchlistMutation) : ∀ x ∈ m.texts, Cleaned x := by
  rcases m with ⟨sub, kind, id, title, posterPath, now, hnow⟩ | sub | ⟨sub, kind, id⟩
  · refine List.forall_mem_cons.mpr ⟨cleaned_cleanStr _ _, fun x hx => ?_⟩
    obtain ⟨poster, hposter, rfl⟩ := Option.map_eq_some_iff.mp (Option.mem_toList.mp hx)
    obtain ⟨raw, -, hraw⟩ := Option.bind_eq_some_iff.mp hposter
    exact ⟨raw, (cleanPoster_eq_some.mp hraw).1⟩
  · exact List.forall_mem_nil _
  · exact List.forall_mem_nil _

theorem tidy_empty (max : ℕ) : IsTidy (max, "") := by
  show Tidy ""
  decide

theorem lawful_feedbackStore : feedbackStore.Lawful (FeedbackFile.Sound Cleaned)
    (FeedbackFile.Sound IsTidy) fun m => Uncut m.texts := by
  constructor
  · intro raw
    show Keyed _ (IndexMap.ofTable (IndexMap.toTable _))
    rw [IndexMap.ofTable_toTable]
    exact keyed_bySub (fun v => ⟨sound_parseKindLists _, sound_parseKindLists _⟩) raw
  · exact fun m t t' h => h.apply (cleaned_empty _) (cleaned_texts_feedback m)
  · intro file h
    have hiff := bySub_toRaw_iff h fun user huser => parseUserFeedback_tree_iff huser
    refine Iff.trans ⟨fun heq => ?_, fun heq => ?_⟩ hiff
    · rw [← IndexMap.ofTable_toTable (bySub _ _)]
      exact congrArg IndexMap.ofTable heq
    · show IndexMap.toTable (bySub parseUserFeedback (toRaw UserFeedback.tree _)) = file
      rw [heq, IndexMap.toTable_ofTable]
  · exact List.forall_mem_nil _
  · exact fun m t t' h hm => h.apply (tidy_empty _) hm

theorem lawful_rejectionsStore : rejectionsStore.Lawful (Rejections.Sound Cleaned)
    (Rejections.Sound IsTidy) fun m => Uncut m.texts := by
  constructor
  · exact sound_parseRejections
  · exact fun m t t' h => h.apply (cleaned_texts_rejections m)
  · exact fun r h => parseRejections_raw_iff h
  · exact ⟨RowKind.sound_nil, RowKind.sound_nil⟩
  · exact fun m t t' h hm => h.apply hm

theorem lawful_watchlistStore : watchlistStore.Lawful (WatchlistFile.Sound Cleaned)
    (WatchlistFile.Sound IsTidy) fun m => Uncut m.texts := by
  constructor
  · exact keyed_bySub fun v =>
      ⟨RowKind.sound_parse lawful_watchRows _, RowKind.sound_parse lawful_watchRows _⟩
  · exact fun m t t' h => h.apply (cleaned_texts_watchlist m)
  · exact fun file h => bySub_toRaw_iff h fun w hw => parseUserWatchlist_tree_iff hw
  · exact List.forall_mem_nil _
  · exact fun m t t' h hm => h.apply hm

theorem PoliciesFile.Sound.apply {file file' : PoliciesFile} (h : file.Sound)
    {m : PoliciesMutation} (happly : policiesStore.apply m file = some file') : file'.Sound := by
  rcases m with ⟨sub, policy⟩ | sub
  · obtain rfl := Option.some.inj happly
    exact Keyed.insert h sub.ne trivial
  · exact Keyed.clearSub h happly

theorem lawful_policiesStore :
    policiesStore.Lawful PoliciesFile.Sound PoliciesFile.Sound fun _ => True := by
  constructor
  · exact keyed_bySub fun _ => trivial
  · exact fun m t t' h => h.apply
  · exact fun file h => bySub_toRaw_iff h fun p _ => iff_of_true (normalizePolicy_tree p) trivial
  · exact List.forall_mem_nil _
  · exact fun m t t' h _ => h.apply

/-! ### The household -/

/-- **The four stores.** -/
structure Household where
  feedback : StoreState FeedbackFile
  rejections : StoreState Rejections
  watchlist : StoreState WatchlistFile
  policies : StoreState PoliciesFile

namespace Household

inductive Act
  | feedback (op : JsonStore.Op FeedbackMutation)
  | rejections (op : JsonStore.Op RejectionsMutation)
  | watchlist (op : JsonStore.Op WatchlistMutation)
  | policies (op : JsonStore.Op PoliciesMutation)

/-- **One operation.** -/
def step (h : Household) : Act → Option Household
  | .feedback op => some { h with feedback := feedbackStore.step h.feedback op }
  | .rejections op => some { h with rejections := rejectionsStore.step h.rejections op }
  | .watchlist op => some { h with watchlist := watchlistStore.step h.watchlist op }
  | .policies op => some { h with policies := policiesStore.step h.policies op }

/-- The files as they are found; none is read yet. -/
def start (feedback rejections watchlist policies : StoreFile) : Household :=
  ⟨⟨feedback, none⟩, ⟨rejections, none⟩, ⟨watchlist, none⟩, ⟨policies, none⟩⟩

def new : Household := start .missing .missing .missing .missing

/-- **What is in memory is what a restart makes of it once it is written.** -/
structure Survives (h : Household) : Prop where
  feedback : ∀ t, h.feedback.cell = some t → feedbackStore.parse (feedbackStore.serialize t) = t
  rejections : ∀ t, h.rejections.cell = some t →
    rejectionsStore.parse (rejectionsStore.serialize t) = t
  watchlist : ∀ t, h.watchlist.cell = some t →
    watchlistStore.parse (watchlistStore.serialize t) = t
  policies : ∀ t, h.policies.cell = some t → policiesStore.parse (policiesStore.serialize t) = t

end Household

/-! No text ends with a blank. -/

def IdTitle.AllTidy (rows : List IdTitle) : Prop := ∀ row ∈ rows, Tidy row.title

def WatchEntry.AllTidy (rows : List WatchEntry) : Prop :=
  ∀ row ∈ rows, Tidy row.title ∧ ∀ poster ∈ row.posterPath, Tidy poster

def FeedbackFile.AllTidy (file : FeedbackFile) : Prop :=
  ∀ e ∈ file.entries, ∀ kind,
    IdTitle.AllTidy (e.2.kind kind).liked ∧ IdTitle.AllTidy (e.2.kind kind).disliked

def Rejections.AllTidy (r : Rejections) : Prop := ∀ kind, IdTitle.AllTidy (r.kind kind)

def WatchlistFile.AllTidy (file : WatchlistFile) : Prop :=
  ∀ e ∈ file.entries, ∀ kind, WatchEntry.AllTidy (e.2.kind kind)

theorem allTidy_idTitle_iff {rows : List IdTitle} (h : idTitleRows.Sound Cleaned rows) :
    idTitleRows.Sound IsTidy rows ↔ IdTitle.AllTidy rows := by
  refine ⟨fun ht row hrow => ht.texts row hrow _ List.mem_cons_self, fun ht => ?_⟩
  exact ⟨h.nodup, h.safe, h.whole, fun e he => List.forall_mem_singleton.mpr (ht e he)⟩

theorem allTidy_watch_iff {rows : List WatchEntry} (h : watchRows.Sound Cleaned rows) :
    watchRows.Sound IsTidy rows ↔ WatchEntry.AllTidy rows := by
  constructor
  · intro ht row hrow
    refine ⟨ht.texts row hrow _ List.mem_cons_self, fun poster hposter => ?_⟩
    refine ht.texts row hrow (maxWatchlistStrLen, poster) (List.mem_cons_of_mem _ ?_)
    exact Option.mem_toList.mpr (Option.mem_map_of_mem _ hposter)
  · intro ht
    refine ⟨h.nodup, h.safe, h.whole, fun e he => List.forall_mem_cons.mpr ⟨(ht e he).1, ?_⟩⟩
    intro x hx
    obtain ⟨poster, hposter, rfl⟩ := Option.map_eq_some_iff.mp (Option.mem_toList.mp hx)
    exact (ht e he).2 poster hposter

theorem allTidy_feedback_iff {file : FeedbackFile} (h : file.Sound Cleaned) :
    file.Sound IsTidy ↔ file.AllTidy := by
  have hmem : ∀ e ∈ file.entries, (e.1, e.2) ∈ (IndexMap.ofTable file).entries := fun e he =>
    List.mem_map.mpr ⟨e, he, rfl⟩
  constructor
  · intro ht e he kind
    have huser := (h _ (hmem e he)).2.kind kind
    have htidy := (ht _ (hmem e he)).2.kind kind
    exact ⟨(allTidy_idTitle_iff huser.liked).mp htidy.liked,
      (allTidy_idTitle_iff huser.disliked).mp htidy.disliked⟩
  · intro ht e he
    obtain ⟨d, hd, rfl⟩ := List.mem_map.mp he
    obtain ⟨hsub, huser⟩ := h _ he
    have hkind : ∀ kind, ((d.2.kind kind).Sound IsTidy) := fun kind =>
      ⟨(allTidy_idTitle_iff (huser.kind kind).liked).mpr (ht d hd kind).1,
        (allTidy_idTitle_iff (huser.kind kind).disliked).mpr (ht d hd kind).2⟩
    exact ⟨hsub, hkind .movie, hkind .tv⟩

theorem allTidy_rejections_iff {r : Rejections} (h : r.Sound Cleaned) :
    r.Sound IsTidy ↔ r.AllTidy := by
  constructor
  · exact fun ht kind => (allTidy_idTitle_iff (h.kind kind)).mp (ht.kind kind)
  · exact fun ht => ⟨(allTidy_idTitle_iff h.movie).mpr (ht .movie),
      (allTidy_idTitle_iff h.tv).mpr (ht .tv)⟩

theorem allTidy_watchlist_iff {file : WatchlistFile} (h : file.Sound Cleaned) :
    file.Sound IsTidy ↔ file.AllTidy := by
  constructor
  · exact fun ht e he kind =>
      (allTidy_watch_iff ((h e he).2.kind kind)).mp ((ht e he).2.kind kind)
  · exact fun ht e he => ⟨(h e he).1, (allTidy_watch_iff (h e he).2.movie).mpr (ht e he .movie),
      (allTidy_watch_iff (h e he).2.tv).mpr (ht e he .tv)⟩

namespace Household

/-- **No text that is in memory ends with a blank.** -/
structure AllTidy (h : Household) : Prop where
  feedback : ∀ t, h.feedback.cell = some t → FeedbackFile.AllTidy t
  rejections : ∀ t, h.rejections.cell = some t → Rejections.AllTidy t
  watchlist : ∀ t, h.watchlist.cell = some t → WatchlistFile.AllTidy t

/-- No text of a mutation is cut off after a blank. -/
def Uncut (_ : Household) : Act → Prop
  | .feedback op => op.Uncut fun m => Gateway.Uncut m.texts
  | .rejections op => op.Uncut fun m => Gateway.Uncut m.texts
  | .watchlist op => op.Uncut fun m => Gateway.Uncut m.texts
  | .policies _ => True

/-- **A mutation that fails leaves the file of its store and what is in memory.** -/
structure FailsSafe (h : Household) : Prop where
  feedback : ∀ m fault, (feedbackStore.update h.feedback m fault).1 = false →
    feedbackStore.Unchanged h.feedback (feedbackStore.update h.feedback m fault).2
  rejections : ∀ m fault, (rejectionsStore.update h.rejections m fault).1 = false →
    rejectionsStore.Unchanged h.rejections (rejectionsStore.update h.rejections m fault).2
  watchlist : ∀ m fault, (watchlistStore.update h.watchlist m fault).1 = false →
    watchlistStore.Unchanged h.watchlist (watchlistStore.update h.watchlist m fault).2
  policies : ∀ m fault, (policiesStore.update h.policies m fault).1 = false →
    policiesStore.Unchanged h.policies (policiesStore.update h.policies m fault).2

structure Within (h : Household) : Prop where
  feedback : JsonStore.Within (FeedbackFile.Sound Cleaned) h.feedback
  rejections : JsonStore.Within (Rejections.Sound Cleaned) h.rejections
  watchlist : JsonStore.Within (WatchlistFile.Sound Cleaned) h.watchlist
  policies : JsonStore.Within PoliciesFile.Sound h.policies

/-- Every store is tidy, and so are the files. -/
structure Clean (h : Household) : Prop where
  feedback : feedbackStore.Clean (FeedbackFile.Sound IsTidy) h.feedback
  rejections : rejectionsStore.Clean (Rejections.Sound IsTidy) h.rejections
  watchlist : watchlistStore.Clean (WatchlistFile.Sound IsTidy) h.watchlist

variable {h h' : Household} {a : Act}

theorem Within.step (hw : h.Within) (hstep : h.step a = some h') : h'.Within := by
  rcases a with op | op | op | op
  · obtain rfl := Option.some.inj hstep
    exact { hw with feedback := lawful_feedbackStore.step hw.feedback op }
  · obtain rfl := Option.some.inj hstep
    exact { hw with rejections := lawful_rejectionsStore.step hw.rejections op }
  · obtain rfl := Option.some.inj hstep
    exact { hw with watchlist := lawful_watchlistStore.step hw.watchlist op }
  · obtain rfl := Option.some.inj hstep
    exact { hw with policies := lawful_policiesStore.step hw.policies op }

theorem Clean.step (hc : h.Clean) (hw : h.Within) (ha : Uncut h a) (hstep : h.step a = some h') :
    h'.Clean := by
  rcases a with op | op | op | op
  · obtain rfl := Option.some.inj hstep
    exact { hc with feedback := lawful_feedbackStore.clean_step hw.feedback hc.feedback ha }
  · obtain rfl := Option.some.inj hstep
    exact { hc with
      rejections := lawful_rejectionsStore.clean_step hw.rejections hc.rejections ha }
  · obtain rfl := Option.some.inj hstep
    exact { hc with watchlist := lawful_watchlistStore.clean_step hw.watchlist hc.watchlist ha }
  · obtain rfl := Option.some.inj hstep
    exact ⟨hc.feedback, hc.rejections, hc.watchlist⟩

/-- **In every run, what is in memory survives exactly when no text ends with a blank.** -/
theorem Within.survives_iff (hw : h.Within) : h.Survives ↔ h.AllTidy := by
  constructor
  · intro hs
    constructor
    · intro t ht
      have hsound := hw.feedback t ht
      exact (allTidy_feedback_iff hsound).mp
        ((lawful_feedbackStore.reload t hsound).mp (hs.feedback t ht))
    · intro t ht
      have hsound := hw.rejections t ht
      exact (allTidy_rejections_iff hsound).mp
        ((lawful_rejectionsStore.reload t hsound).mp (hs.rejections t ht))
    · intro t ht
      have hsound := hw.watchlist t ht
      exact (allTidy_watchlist_iff hsound).mp
        ((lawful_watchlistStore.reload t hsound).mp (hs.watchlist t ht))
  · intro htidy
    constructor
    · intro t ht
      have hsound := hw.feedback t ht
      exact (lawful_feedbackStore.reload t hsound).mpr
        ((allTidy_feedback_iff hsound).mpr (htidy.feedback t ht))
    · intro t ht
      have hsound := hw.rejections t ht
      exact (lawful_rejectionsStore.reload t hsound).mpr
        ((allTidy_rejections_iff hsound).mpr (htidy.rejections t ht))
    · intro t ht
      have hsound := hw.watchlist t ht
      exact (lawful_watchlistStore.reload t hsound).mpr
        ((allTidy_watchlist_iff hsound).mpr (htidy.watchlist t ht))
    · intro t ht
      have hsound := hw.policies t ht
      exact (lawful_policiesStore.reload t hsound).mpr hsound

theorem within_start (f r w p : StoreFile) : (start f r w p).Within := by
  constructor
  all_goals rintro t ⟨⟩

theorem allTidy_of_runs (hruns : Runs step Uncut new h) : h.AllTidy := by
  have hinv : h.Within ∧ h.Clean := by
    refine Runs.invariant (P := fun h => h.Within ∧ h.Clean) hruns ⟨within_start _ _ _ _, ?_⟩
      fun v a v' hv ha hstep => ⟨hv.1.step hstep, hv.2.step hv.1 ha hstep⟩
    exact ⟨lawful_feedbackStore.clean_new, lawful_rejectionsStore.clean_new,
      lawful_watchlistStore.clean_new⟩
  obtain ⟨hw, hc⟩ := hinv
  constructor
  · exact fun t ht => (allTidy_feedback_iff (hw.feedback t ht)).mp (hc.feedback.cell t ht)
  · exact fun t ht => (allTidy_rejections_iff (hw.rejections t ht)).mp (hc.rejections.cell t ht)
  · exact fun t ht => (allTidy_watchlist_iff (hw.watchlist t ht)).mp (hc.watchlist.cell t ht)

/-- **The stores survive a restart exactly when no text of them ends with a blank**, and none does
where no text was cut off after a blank; a mutation that fails changes nothing. -/
theorem survives_restart {f r w p : StoreFile} (hruns : Runs step anyStep (start f r w p) h) :
    (h.Survives ↔ h.AllTidy) ∧ (Runs step Uncut new h → h.AllTidy) ∧ h.FailsSafe := by
  have hw : h.Within := Runs.invariant (P := Within) hruns (within_start f r w p)
    fun v a v' hv _ hstep => hv.step hstep
  refine ⟨hw.survives_iff, allTidy_of_runs, ?_⟩
  constructor
  · exact fun m fault => feedbackStore.update_failed
  · exact fun m fault => rejectionsStore.update_failed
  · exact fun m fault => watchlistStore.update_failed
  · exact fun m fault => policiesStore.update_failed

theorem survives_restart_veto : ∃ h, Runs step anyStep new h ∧
    h.rejections.cell = some ⟨[⟨603, sanitizeTitle "The Matrix"⟩], []⟩ ∧
    ((h.Survives ↔ h.AllTidy) ∧ (Runs step Uncut new h → h.AllTidy) ∧ h.FailsSafe) := by
  have hrun : ∃ h, exec step new
      [.rejections (.update (.add .movie ⟨603, by decide, by decide⟩ "The Matrix") none)] =
        some h ∧ h.rejections.cell = some ⟨[⟨603, sanitizeTitle "The Matrix"⟩], []⟩ :=
    ⟨_, rfl, rfl⟩
  obtain ⟨h, hexec, hcell⟩ := hrun
  have hruns := runs_of_exec hexec
  exact ⟨h, hruns, hcell, survives_restart hruns⟩

/-- A title of `n` letters, a blank and one more letter. -/
def longTitle (n : ℕ) : String := String.ofList (List.replicate n 'a' ++ [' ', 'b'])

theorem not_tidy_longTitle {n : ℕ} (hn : n ≠ 0) : ¬ Tidy (cleanStr (n + 1) (longTitle n)) := by
  have hfirst : IsWord jsSpace (List.replicate n 'a') := by
    refine ⟨by simpa using hn, fun c hc => ?_⟩
    obtain rfl := List.eq_of_mem_replicate hc
    decide
  have hsecond : IsWord jsSpace ['b'] :=
    ⟨List.cons_ne_nil _ _, List.forall_mem_singleton.mpr (by decide)⟩
  have hspaced : (List.replicate n 'a' ++ [' ', 'b']).map spaced =
      join ' ' [List.replicate n 'a', ['b']] := by
    rw [join_cons_cons, join_singleton, List.map_append, List.map_replicate]
    rfl
  have hwords : ∀ w ∈ [List.replicate n 'a', ['b']], IsWord jsSpace w :=
    List.forall_mem_cons.mpr ⟨hfirst, List.forall_mem_singleton.mpr hsecond⟩
  have hunits : units (List.replicate n 'a') = n := by
    rw [units, List.map_replicate, List.sum_replicate]
    exact Nat.mul_one n
  rw [Tidy, toList_cleanStr, longTitle, String.toList_ofList, clean_eq, hspaced,
    words_join jsSpace_blank hwords, join_cons_cons, join_singleton, jsSlice_append (by omega),
    hunits, Nat.add_sub_cancel_left]
  exact not_not_intro List.getLast?_concat

/-- The title is cut off after its blank, and is without it after a restart. -/
theorem not_survives_cut : ¬ ∀ h, Runs step anyStep new h → h.Survives := by
  intro hall
  have hrun : ∃ h, exec step new
      [.rejections (.update (.add .movie ⟨603, by decide, by decide⟩ (longTitle 199)) none)] =
        some h ∧
      h.rejections.cell = some ⟨[⟨603, sanitizeTitle (longTitle 199)⟩], []⟩ :=
    ⟨_, rfl, rfl⟩
  obtain ⟨h, hexec, hcell⟩ := hrun
  have hruns := runs_of_exec hexec
  have hw : h.Within := Runs.invariant (P := Within) hruns (within_start _ _ _ _)
    fun v a v' hv _ hstep => hv.step hstep
  have halltidy := (hw.survives_iff.mp (hall h hruns)).rejections _ hcell .movie
  have htidy := halltidy _ List.mem_cons_self
  have hcut : ¬ Tidy (cleanStr (199 + 1) (longTitle 199)) := not_tidy_longTitle (by decide)
  rw [sanitizeTitle_eq, show maxTitleLen = 199 + 1 from rfl] at htidy
  exact hcut htidy

end Household

end EmeraldExchange.Gateway
