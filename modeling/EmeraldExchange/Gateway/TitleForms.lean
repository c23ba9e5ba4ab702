import EmeraldExchange.Gateway.Suggestions

/-!
# The forms that two titles share

A title is compared in two forms, with its subtitle and without. The form without is left out where
nothing remains of it; the form with is not, although nothing remains of a title in another script.
So two such titles are one (`not_shared_script`). Everywhere else a match
means that the titles share a form in which something remains
(`shared_iff`).
-/

namespace EmeraldExchange.Gateway

open Auth Words Suggestions

def titleForms (t : String) : List String := [normalizeTitle t, normalizeTitleBase t]

/-- **Two titles share a form** in which something remains. -/
def Share (t t' : String) : Prop := ∃ form ∈ titleForms t, form ∈ titleForms t' ∧ form ≠ ""

/-- The titles of the pool that a title is looked up among. -/
def poolByTitle (pool : List Item) (title : String) : List Item :=
  pool.filter fun it => normalizeTitle it.title = normalizeTitle title

/-! ### What remains of a title -/

def remains (c : Char) : Bool := c.isLower || c.isDigit

theorem not_remains_of_jsSpace {c : Char} (h : jsSpace c = true) : remains c = false := by
  refine Bool.eq_false_iff.mpr fun hremains => ?_
  have hrange : 0x21 ≤ c.toNat ∧ c.toNat ≤ 0x7e := by
    rw [remains, Bool.or_eq_true] at hremains
    rcases hremains with hlower | hdigit
    · obtain ⟨hlow, hhigh⟩ := (Bool.and_eq_true ..).mp hlower
      have hlow : 0x61 ≤ c.toNat := of_decide_eq_true hlow
      have hhigh : c.toNat ≤ 0x7a := of_decide_eq_true hhigh
      omega
    · obtain ⟨hlow, hhigh⟩ := (Bool.and_eq_true ..).mp hdigit
      have hlow : 0x30 ≤ c.toNat := of_decide_eq_true hlow
      have hhigh : c.toNat ≤ 0x39 := of_decide_eq_true hhigh
      omega
  rw [jsSpace_of_visible hrange.1 hrange.2] at h
  cases h

theorem filter_dropWhile_jsSpace : ∀ cs : List Char,
    (cs.dropWhile jsSpace).filter remains = cs.filter remains
  | [] => rfl
  | c :: cs => by
    rw [List.dropWhile_cons]
    split
    · next hspace =>
      rw [filter_dropWhile_jsSpace cs, List.filter_cons, not_remains_of_jsSpace hspace]
      rfl
    · rfl

/-- What is compared of a title in lower case. -/
def stripped (lower : List Char) : List Char :=
  (articles.findSome? (afterArticle lower)).getD lower

theorem toList_normalizeTitle (t : String) :
    (normalizeTitle t).toList = (stripped (toLowercase t.toList)).filter remains :=
  String.toList_ofList

theorem length_filter_stripped (lower : List Char) :
    ((stripped lower).filter remains).length ≤ (lower.filter remains).length ∧
      (lower.filter remains).length ≤ ((stripped lower).filter remains).length + 3 := by
  rw [stripped]
  rcases hfound : articles.findSome? (afterArticle lower) with _ | rest
  · exact ⟨le_rfl, Nat.le_add_right _ _⟩
  · obtain ⟨article, harticle, hafter⟩ := List.exists_of_findSome?_eq_some hfound
    obtain ⟨r, hr, hrest⟩ := Option.bind_eq_some_iff.mp hafter
    have hlower := List.append_eq_of_isPrefixOf?_eq_some hr
    have hlength : (article.toList.filter remains).length ≤ 3 := by
      have hall : ∀ a ∈ articles, (a.toList.filter remains).length ≤ 3 := by decide
      exact hall article harticle
    split at hrest
    · obtain rfl := Option.some.inj hrest
      rw [Option.getD_some, filter_dropWhile_jsSpace, ← hlower, List.filter_append,
        List.length_append]
      omega
    · cases hrest

theorem isPrefix_of_beforeSubtitle : ∀ {cs base : List Char},
    beforeSubtitle cs = some base → base <+: cs
  | c :: cs, base, h => by
    rw [beforeSubtitle] at h
    split at h
    · obtain rfl := Option.some.inj h
      exact List.nil_prefix
    · obtain ⟨base, hbase, rfl⟩ := Option.map_eq_some_iff.mp h
      exact List.cons_prefix_cons.mpr ⟨rfl, isPrefix_of_beforeSubtitle hbase⟩

/-- **Where something remains without the subtitle, something remains with it.** -/
theorem normalizeTitle_ne_of_base {t : String} (h : normalizeTitleBase t ≠ "") :
    normalizeTitle t ≠ "" := by
  rw [normalizeTitleBase] at h
  split at h
  · exact absurd rfl h
  · next base hbase =>
    dsimp only at h
    split at h
    · exact absurd rfl h
    · next hlong =>
      rw [not_or, not_lt] at hlong
      obtain ⟨subtitle, hsubtitle⟩ := isPrefix_of_beforeSubtitle hbase
      have hlower : toLowercase t.toList = toLowercase base ++ toLowercase subtitle := by
        rw [← hsubtitle, toLowercase, List.flatMap_append]
        rfl
      have hbaseLength : 5 ≤ ((stripped (toLowercase base)).filter remains).length := by
        have hlist := toList_normalizeTitle (String.ofList base)
        rw [String.toList_ofList] at hlist
        rw [← hlist, String.length_toList]
        exact hlong.2
      have hshort := (length_filter_stripped (toLowercase base)).1
      have hwhole := (length_filter_stripped (toLowercase t.toList)).2
      rw [hlower, List.filter_append, List.length_append, ← hlower, ← toList_normalizeTitle]
        at hwhole
      intro hempty
      rw [hempty] at hwhole
      have hzero : "".toList.length = 0 := rfl
      omega

theorem normalizeTitleBase_of_empty {t : String} (h : normalizeTitle t = "") :
    normalizeTitleBase t = "" := by
  by_contra hne
  exact normalizeTitle_ne_of_base hne h

/-! ### What a match means -/

/-- **Matches share a form**: a match with a set of the titles, with their subtitles cut off or not,
and a hit in a pool. -/
structure Shared (p : String) (titles : List String) : Prop where
  sets : ∀ includeBase, titleMatches p (titleSet titles includeBase) = true →
    ∃ t ∈ titles, Share p t
  pool : ∀ pool : List Item, pool.map Item.title = titles →
    ∀ it ∈ poolByTitle pool p, Share p it.title

theorem mem_titleForms_of_mem_titleSet {titles : List String} {includeBase : Bool} {form : String}
    (h : form ∈ titleSet titles includeBase) :
    ∃ t ∈ titles, form ∈ titleForms t ∧ (form = normalizeTitle t ∨ form ≠ "") := by
  rw [titleSet, List.mem_toFinset, List.mem_flatMap] at h
  obtain ⟨t, ht, hform⟩ := h
  refine ⟨t, (List.mem_filter.mp ht).1, ?_⟩
  split at hform
  · next hbase =>
    rcases List.mem_cons.mp hform with rfl | hform
    · exact ⟨List.mem_cons_self, .inl rfl⟩
    · obtain rfl := List.mem_singleton.mp hform
      exact ⟨List.mem_cons_of_mem _ List.mem_cons_self, .inr hbase.2⟩
  · obtain rfl := List.mem_singleton.mp hform
    exact ⟨List.mem_cons_self, .inl rfl⟩

theorem not_share_of_empty {p t : String} (h : normalizeTitle p = "") : ¬ Share p t := by
  rintro ⟨form, hform, -, hne⟩
  rcases List.mem_cons.mp hform with rfl | hform
  · exact hne h
  · obtain rfl := List.mem_singleton.mp hform
    exact hne (normalizeTitleBase_of_empty h)

/-- **Matches share a form exactly when something remains of the pick, or of every title.** -/
theorem shared_iff (p : String) (titles : List String) :
    Shared p titles ↔ normalizeTitle p ≠ "" ∨ ∀ t ∈ titles, normalizeTitle t ≠ "" := by
  constructor
  · rintro ⟨-, hpool⟩
    rw [or_iff_not_imp_left, not_not]
    intro hempty t ht hnone
    -- the titles as a pool
    have hitems := hpool (titles.map fun title => ⟨0, title, none, none, none, none, none, none⟩)
      (by rw [List.map_map]; exact List.map_id titles)
    refine not_share_of_empty hempty (hitems _ (List.mem_filter.mpr
      ⟨List.mem_map_of_mem ht, decide_eq_true ?_⟩))
    exact hnone.trans hempty.symm
  · intro hremains
    constructor
    · intro includeBase hmatch
      rw [titleMatches] at hmatch
      split at hmatch
      · cases hmatch
      · split at hmatch
        · next hmem =>
          obtain ⟨t, ht, hform, hcase⟩ := mem_titleForms_of_mem_titleSet hmem
          refine ⟨t, ht, normalizeTitle p, List.mem_cons_self, hform, ?_⟩
          rcases hremains with hp | hall
          · exact hp
          · rcases hcase with heq | hne
            · rw [heq]
              exact hall t ht
            · exact hne
        · rw [Bool.and_eq_true, decide_eq_true_eq, decide_eq_true_eq] at hmatch
          obtain ⟨t, ht, hform, -⟩ := mem_titleForms_of_mem_titleSet hmatch.2
          exact ⟨t, ht, _, List.mem_cons_of_mem _ List.mem_cons_self, hform, hmatch.1⟩
    · rintro pool rfl it hit
      obtain ⟨hmem, heq⟩ := List.mem_filter.mp hit
      have heq := of_decide_eq_true heq
      refine ⟨normalizeTitle p, List.mem_cons_self, heq ▸ List.mem_cons_self, ?_⟩
      rcases hremains with hp | hall
      · exact hp
      · rw [← heq]
        exact hall _ (List.mem_map_of_mem hmem)

/-- Nothing remains of two titles in another script, and they match. -/
theorem not_shared_script : ¬ ∀ (p : String) (titles : List String),
    titleMatches p (titleSet titles true) = true → ∃ t ∈ titles, Share p t := by
  intro hall
  have hempty : normalizeTitle "東京物語" = "" := by decide +kernel
  obtain ⟨t, -, hshare⟩ := hall "東京物語" ["羅生門"] (by decide +kernel)
  exact not_share_of_empty hempty hshare

end EmeraldExchange.Gateway
