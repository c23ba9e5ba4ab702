import Mathlib.Algebra.GroupWithZero.Nat
import EmeraldExchange.MediaCore.Tags

/-!
# Spellings of a show

`normalize_show_name` of `crates/media-core/src/filename.rs` makes the key of a show from a name as
it is written: in any case, with or without accents, with dots or spaces between the words, with a
year or release tags after it; and once more from the display name that `try_episode` has already
cleaned. What is compared are the words that are left of a name: the first of them, up to the first
release tag (`kept_eq_take`). A key has the letters of what is left, and
no step adds any, so a spelling has the key of the name exactly if it is cut off right after it
(`sharesKey_iff`).

Not every spelling is. A year in brackets keeps its opening bracket when the closing one is dropped,
so it is not taken for a year. A tag that is written with a separator or in brackets is looked for
when separators are spaces already, and is not found.
-/

namespace EmeraldExchange.MediaCore

open Regex

/-! ### Counting letters -/

section letters

variable {U : Unicode} {a b w : List Char} {W : List (List Char)} {c : Char}

theorem letters_nil (hU : U.Lawful) : U.letters [] = 0 := by
  have h := hU.letters_append [] []
  rw [List.append_nil] at h
  omega

theorem letters_cons (hU : U.Lawful) (c : Char) (a : List Char) :
    U.letters (c :: a) = U.letters [c] + U.letters a := hU.letters_append [c] a

theorem letters_space (hU : U.Lawful) (a : List Char) : U.letters (' ' :: a) = U.letters a := by
  rw [letters_cons hU, hU.letters_gap (Or.inl (by decide)), Nat.zero_add]

/-- **Leaving characters out leaves out letters at most.** -/
theorem letters_le_of_sublist (hU : U.Lawful) (h : a.Sublist b) : U.letters a ≤ U.letters b := by
  induction h with
  | slnil => exact le_rfl
  | cons c _ ih =>
    rw [letters_cons hU c]
    exact ih.trans (Nat.le_add_left _ _)
  | cons_cons c _ ih =>
    show U.letters ([c] ++ _) ≤ U.letters ([c] ++ _)
    rw [hU.letters_append, hU.letters_append]
    exact Nat.add_le_add_left ih _

theorem letters_join (hU : U.Lawful) : ∀ W : List (List Char),
    U.letters (Words.join ' ' W) = (W.map U.letters).sum
  | [] => letters_nil hU
  | [w] => by rw [Words.join_singleton, List.map_singleton, List.sum_singleton]
  | w :: v :: ws => by
    rw [Words.join_cons_cons, hU.letters_append, letters_space hU, letters_join hU (v :: ws),
      List.map_cons (l := v :: ws), List.sum_cons]

theorem letters_flatten (hU : U.Lawful) : ∀ W : List (List Char),
    U.letters W.flatten = (W.map U.letters).sum
  | [] => letters_nil hU
  | w :: ws => by
    rw [List.flatten_cons, hU.letters_append, letters_flatten hU ws, List.map_cons, List.sum_cons]

theorem letters_lower (hU : U.Lawful) (a : List Char) : U.letters (U.lower a) = U.letters a := by
  rw [Unicode.letters, Unicode.folded, hU.lower_lower, Unicode.letters, Unicode.folded]

theorem trimMatches_sublist (p : Char → Bool) (a : List Char) : (trimMatches p a).Sublist a := by
  have hback := List.dropWhile_sublist p (l := (a.dropWhile p).reverse)
  have hfront := List.dropWhile_sublist p (l := a)
  exact (List.reverse_sublist.mp (by rwa [trimMatches, List.reverse_reverse])).trans hfront

theorem letters_respace_le (hU : U.Lawful) (a : List Char) :
    U.letters (respace a) ≤ U.letters a := by
  rw [respace, letters_join hU, ← letters_flatten hU, Words.flatten_words]
  exact letters_le_of_sublist hU List.filter_sublist

theorem letters_unseparate_le (hU : U.Lawful) : ∀ a : List Char,
    U.letters (a.map unseparate) ≤ U.letters a
  | [] => le_rfl
  | c :: a => by
    rw [List.map_cons, letters_cons hU (unseparate c), letters_cons hU c]
    refine Nat.add_le_add ?_ (letters_unseparate_le hU a)
    rw [unseparate]
    split
    · rw [hU.letters_gap (Or.inl (by decide))]
      exact Nat.zero_le _
    · exact le_rfl

/-- **A name has no more letters when it is cleaned.** -/
theorem letters_clean_le (hU : U.Lawful) (a : List Char) : U.letters (clean a) ≤ U.letters a := by
  have htrim := (trimMatches_sublist isWhitespace _).trans
    (trimMatches_sublist isBracket (respace (a.map unseparate)))
  exact (letters_le_of_sublist hU htrim).trans
    ((letters_respace_le hU _).trans (letters_unseparate_le hU a))

theorem letters_stripTags_le (hU : U.Lawful) (a : List Char) :
    U.letters (stripTags U a) ≤ U.letters a := by
  rw [stripTags]
  rcases hfind : find (noiseRe U) none (' ' :: a) with _ | ⟨before, rest, q⟩
  · exact letters_le_of_sublist hU (trimMatches_sublist _ a)
  · have hbefore := (of_find hfind).1
    rw [← letters_space hU a, ← hbefore]
    exact letters_le_of_sublist hU
      ((trimMatches_sublist _ before).trans (List.sublist_append_left before rest))

theorem letters_stripTrailingYear_le (hU : U.Lawful) (a : List Char) :
    U.letters (stripTrailingYear a) ≤ U.letters a := by
  have htrim (a : List Char) : (trimEnd a).Sublist a := by
    have hback := List.dropWhile_sublist isWhitespace (l := a.reverse)
    exact List.reverse_sublist.mp (by rwa [trimEnd, List.reverse_reverse])
  refine letters_le_of_sublist hU ?_
  unfold stripTrailingYear
  simp only
  split
  · exact (htrim _).trans ((List.take_sublist _ _).trans (htrim a))
  · exact htrim a

def keyLetters (key : List Char) : ℕ := key.countP fun c => !isWhitespace c

theorem keyLetters_join : ∀ W : List (List Char),
    keyLetters (Words.join ' ' W) = keyLetters W.flatten
  | [] => rfl
  | [w] => by rw [Words.join_singleton, List.flatten_singleton]
  | w :: v :: ws => by
    have hrest := keyLetters_join (v :: ws)
    rw [keyLetters, keyLetters] at hrest
    rw [keyLetters, keyLetters, Words.join_cons_cons, List.countP_append,
      List.countP_cons_of_neg (by decide), hrest, List.flatten_cons (L := v :: ws),
      List.countP_append]

/-- **The key of a text has its letters.** -/
theorem keyLetters_foldJoinKey (hU : U.Lawful) (a : List Char) :
    keyLetters (foldJoinKey U a) = U.letters a := by
  have hspaced (c : Char) : (!isWhitespace (if U.alphanumeric c then c else ' ')) =
      U.alphanumeric c := by
    split
    · next h => rw [(hU.solid (Or.inl h)).notBlank, h, Bool.not_false]
    · next h => rw [Bool.eq_false_iff.mpr h]; rfl
  show keyLetters (respace ((U.folded a).map fun c => if U.alphanumeric c then c else ' ')) = _
  rw [respace, keyLetters_join, Words.flatten_words, keyLetters, List.countP_filter,
    List.countP_map, Unicode.letters]
  refine List.countP_congr fun c _ => ?_
  simp only [Function.comp_apply, hspaced, Bool.and_self]

/-- **A key has no more letters than the name it is of.** -/
theorem keyLetters_normalizeShowName_le (hU : U.Lawful) (raw : String) :
    keyLetters (normalizeShowName U raw).toList ≤ U.letters raw.toList := by
  rw [normalizeShowName, String.toList_ofList, keyLetters_foldJoinKey hU]
  refine (letters_stripTrailingYear_le hU _).trans ((letters_stripTags_le hU _).trans ?_)
  rw [letters_lower hU]
  exact letters_clean_le hU _

end letters

/-! ### What is left of a name -/

section kept

variable {U : Unicode} {V W names rest N : List (List Char)} {t : List Char} {n : ℕ}

variable (U) in
def kept (W : List (List Char)) : List (List Char) := undated (W.take (firstTag U W))

variable (U) in
/-- **The name is cut off after its first `n` words**: the first release tag comes right after them,
if they do not end with a year, or else after the year that follows them. -/
def CutAfter (n : ℕ) (W : List (List Char)) : Prop :=
  (firstTag U W = n ∧ dated (W.take n) = false) ∨
    (firstTag U W = n + 1 ∧ dated (W.take (n + 1)) = true)

instance CutAfter.decidable : Decidable (CutAfter U n W) := inferInstanceAs (Decidable (_ ∨ _))

theorem kept_eq_take (U : Unicode) (W : List (List Char)) :
    ∃ j ≤ W.length, kept U W = W.take j ∧ ∀ n, j = n ↔ CutAfter U n W := by
  by_cases hdated : dated (W.take (firstTag U W)) = true
  · have hlen : 1 < (W.take (firstTag U W)).length := by
      rw [dated, Bool.and_eq_true, decide_eq_true_iff] at hdated
      exact hdated.1
    rw [List.length_take_of_le (firstTag_le W)] at hlen
    refine ⟨firstTag U W - 1, (Nat.sub_le _ _).trans (firstTag_le W), ?_, fun n => ?_⟩
    · rw [kept, undated, if_pos hdated, List.dropLast_eq_take, List.take_take,
        List.length_take_of_le (firstTag_le W), Nat.min_eq_left (Nat.sub_le _ _)]
    · constructor
      · rintro rfl
        refine Or.inr ?_
        rw [Nat.sub_add_cancel (le_of_lt hlen)]
        exact ⟨rfl, hdated⟩
      · rintro (⟨rfl, hnot⟩ | ⟨hfirst, -⟩)
        · rw [hdated] at hnot
          cases hnot
        · omega
  · refine ⟨firstTag U W, firstTag_le W, by rw [kept, undated, if_neg hdated], fun n => ?_⟩
    constructor
    · rintro rfl
      exact Or.inl ⟨rfl, Bool.eq_false_iff.mpr hdated⟩
    · rintro (⟨hfirst, -⟩ | ⟨hfirst, hyes⟩)
      · exact hfirst
      · rw [← hfirst] at hyes
        exact absurd hyes hdated

theorem isYear_lower (hU : U.Lawful) (y : List Char) : isYear (U.lower y) = isYear y := by
  by_cases h : y.all Char.isDigit = true ∨ (U.lower y).all Char.isDigit = true
  · rw [hU.lower_digits h]
  · have hnot (z : List Char) (hz : ¬ z.all Char.isDigit = true) : isYear z = false := by
      rw [isYear, Bool.eq_false_iff.mpr hz]
      simp
    rw [hnot _ fun hy => h (Or.inr hy), hnot _ fun hy => h (Or.inl hy)]

theorem undated_lower (hU : U.Lawful) (V : List (List Char)) :
    undated (V.map U.lower) = (undated V).map U.lower := by
  have hdated : dated (V.map U.lower) = dated V := by
    rw [dated, dated, List.length_map, List.getLast?_map, Option.any_map]
    simp only [isYear_lower hU]
  rw [undated, undated, hdated, ← List.map_dropLast]
  split <;> rfl

/-- **The key of a name is that of the words that are left of it.** -/
theorem normalizeShowName_of_clean (hU : U.Lawful) (hne : W ≠ [])
    (hW : ∀ w ∈ W, Words.IsWord isWhitespace w) (h : clean t = Words.join ' ' W) :
    normalizeShowName U (String.ofList t) =
      String.ofList (foldJoinKey U (Words.join ' ' ((kept U W).map U.lower))) := by
  have hlower : ∀ w ∈ W.map U.lower, Words.IsWord isWhitespace w := by
    intro w hw
    obtain ⟨v, hv, rfl⟩ := List.mem_map.mp hw
    exact hU.lower_isWord (hW v hv)
  rw [normalizeShowName, String.toList_ofList, h, lower_join hU hne, stripTags_join hU hlower,
    firstTag_lower hU, ← List.map_take,
    stripTrailingYear_join ?_, undated_lower hU, kept]
  rw [List.map_take]
  exact fun w hw => hlower w (List.mem_of_mem_take hw)

theorem folded_space (hU : U.Lawful) (a b : List Char) :
    U.folded (a ++ ' ' :: b) = U.folded a ++ ' ' :: U.folded b := by
  rw [Unicode.folded, hU.lower_space, hU.nfd_space, List.filter_append,
    List.filter_cons_of_pos (by rw [hU.space.2]; rfl), List.flatMap_append, List.flatMap_cons]
  rfl

theorem folded_join (hU : U.Lawful) : ∀ {W : List (List Char)}, W ≠ [] →
    U.folded (Words.join ' ' W) = Words.join ' ' (W.map U.folded)
  | [], h => absurd rfl h
  | [w], _ => by rw [Words.join_singleton, List.map_singleton, Words.join_singleton]
  | w :: v :: ws, _ => by
    rw [Words.join_cons_cons, folded_space hU, folded_join hU (List.cons_ne_nil v ws),
      List.map_cons, List.map_cons, List.map_cons, Words.join_cons_cons]

/-- **Words that fold to the same have one key.** -/
theorem foldJoinKey_join (hU : U.Lawful) (hV : V ≠ []) (hW : W ≠ [])
    (h : V.map U.folded = W.map U.folded) :
    foldJoinKey U (Words.join ' ' (V.map U.lower)) =
      foldJoinKey U (Words.join ' ' (W.map U.lower)) := by
  have hlower (w : List Char) : U.folded (U.lower w) = U.folded w := by
    rw [Unicode.folded, hU.lower_lower, Unicode.folded]
  have hfolded : U.folded (Words.join ' ' (V.map U.lower)) =
      U.folded (Words.join ' ' (W.map U.lower)) := by
    rw [folded_join hU (by simpa using hV), folded_join hU (by simpa using hW), List.map_map,
      List.map_map]
    simp only [Function.comp_def, hlower]
    rw [h]
  exact congrArg (fun f : List Char => respace (f.map fun c => if U.alphanumeric c then c else ' '))
    hfolded

theorem sum_take_lt {f : List Char → ℕ} {i j : ℕ} (hi : i < W.length) (hij : i < j)
    (h : 1 ≤ f W[i]) : ((W.take i).map f).sum < ((W.take j).map f).sum := by
  have hsplit : W.take j = W.take i ++ W[i] :: (W.drop (i + 1)).take (j - (i + 1)) := by
    obtain ⟨k, rfl⟩ : ∃ k, j = i + 1 + k := ⟨j - (i + 1), by omega⟩
    rw [List.take_add, List.take_succ_eq_append_getElem hi, Nat.add_sub_cancel_left,
      List.append_assoc, List.singleton_append]
  rw [hsplit, List.map_append, List.sum_append, List.map_cons, List.sum_cons]
  omega

end kept

/-! ### Spellings -/

section spellings

variable (U : Unicode)

/-- **A word of letters and digits**, which may have accents. -/
structure Word (w : List Char) : Prop where
  wordy : ∀ c ∈ w, U.alphanumeric c = true ∨ U.combining c = true
  letter : ∃ c ∈ w, U.alphanumeric c = true ∧ U.combining c = false

/-- **The name of a show**: words, no release tag among them, and the last is no year. -/
structure ShowName (N : List (List Char)) : Prop where
  ne_nil : N ≠ []
  word : ∀ w ∈ N, Word U w
  untagged : firstTag U N = N.length
  last : ∀ y ∈ N.getLast?, isYear y = false

/-- A year as it is appended to a name, in brackets or not. -/
structure YearForm where
  gap : List Char
  digits : List Char
  bracketed : Bool

def YearForm.text (y : YearForm) : List Char :=
  y.gap ++ if y.bracketed then '(' :: (y.digits ++ [')']) else y.digits

/-- **A way to write a name**: its words as they are written, with what is between them, and a year
and release tags after it. -/
structure Spelling where
  words : List (List Char)
  name : List Char
  year : Option YearForm
  tags : Option (List Char × List Char)

def Spelling.after (s : Spelling) : List Char :=
  (s.year.map YearForm.text).getD [] ++ (s.tags.map fun x => x.1 ++ x.2).getD []

def Spelling.text (s : Spelling) : List Char := s.name ++ s.after

/-- A release tag begins the text as it is written, or it does so in brackets. -/
def Suffix (t : List Char) : Prop :=
  ∃ b z, t = b ++ z ∧ (∀ d ∈ b, isBracket d = true) ∧ tagAt U z = true

/-- **The spellings of a name**: its words in any case and with or without accents, set apart by
any gaps, with or without a year, and with or without release tags. -/
structure Spells (N : List (List Char)) (s : Spelling) : Prop where
  spread : Spread s.words s.name
  word : ∀ w ∈ s.words, Word U w
  same : s.words.map U.folded = N.map U.folded
  year : ∀ y ∈ s.year, Gap y.gap ∧ isYear y.digits = true
  tags : ∀ x ∈ s.tags, Gap x.1 ∧ Suffix U x.2

/-- **An episode marker follows a spelling**: of what comes after the name, it is the first. -/
structure Marked (s : Spelling) (gap marker : List Char) : Prop where
  isGap : Gap gap
  first : ∃ q se, find (episodeRe U) (lastOr none s.name) (s.after ++ (gap ++ marker)) =
    some (s.after ++ gap, marker, q) ∧ markerToSe q = some se

/-- An episode marker begins within the name. -/
def MarkerInside (name rest : List Char) : Prop :=
  ∃ i < name.length,
    (matchAt (episodeRe U) (lastOr none (name.take i)) (name.drop i ++ rest)).isSome = true

instance MarkerInside.decidable (name rest : List Char) : Decidable (MarkerInside U name rest) :=
  inferInstanceAs (Decidable (∃ i < name.length, _))

end spellings

/-! ### What the parts of a spelling are -/

section parts

variable {U : Unicode} {N : List (List Char)} {s : Spelling} {w t : List Char}

theorem Word.solidWord (hU : U.Lawful) (h : Word U w) : SolidWord w := by
  obtain ⟨c, hc, -⟩ := h.letter
  exact ⟨List.ne_nil_of_mem hc, fun d hd => hU.solid (h.wordy d hd)⟩

theorem Word.letters_pos (hU : U.Lawful) (h : Word U w) : 1 ≤ U.letters w := by
  obtain ⟨c, hc, halnum, hcombining⟩ := h.letter
  exact (hU.letters_pos halnum hcombining).trans
    (letters_le_of_sublist hU (List.singleton_sublist.mpr hc))

theorem Unicode.Lawful.letters_mark (hU : U.Lawful) {c : Char} (h : U.mark c = true) :
    1 ≤ U.letters [c] :=
  hU.letters_pos (hU.mark_alphanumeric h).1 (hU.mark_alphanumeric h).2

theorem mark_of_mem_year (hU : U.Lawful) (h : isYear t = true) : ∀ c ∈ t, U.mark c = true := by
  intro c hc
  rw [isYear, Bool.and_assoc, Bool.and_assoc, Bool.and_eq_true, Bool.and_eq_true] at h
  exact hU.mark_of_isDigit (List.all_eq_true.mp h.2.1 c hc)

theorem year_ne_nil (h : isYear t = true) : t ≠ [] := by
  rintro rfl
  cases h

theorem solidWord_of_isYear (hU : U.Lawful) (h : isYear t = true) : SolidWord t :=
  ⟨year_ne_nil h, fun c hc => hU.solid_of_mark (mark_of_mem_year hU h c hc)⟩

/-- **After a name comes nothing, or a gap and something that begins with a letter**, perhaps in
brackets. -/
theorem after_cases (hU : U.Lawful) (h : Spells U N s) : s.after = [] ∨
    ∃ g b c z, s.after = g ++ (b ++ c :: z) ∧ Gap g ∧ (∀ d ∈ b, isBracket d = true) ∧
      U.mark c = true := by
  rcases hyear : s.year with _ | y
  · rcases htags : s.tags with _ | ⟨g, t⟩
    · exact Or.inl (by rw [Spelling.after, hyear, htags]; rfl)
    · obtain ⟨hg, b, z, rfl, hb, htag⟩ := h.tags _ htags
      obtain ⟨c, z, rfl, hc⟩ := exists_of_tagAt htag
      refine Or.inr ⟨g, b, c, z, ?_, hg, hb, hc⟩
      rw [Spelling.after, hyear, htags]
      rfl
  · obtain ⟨hg, hdigits⟩ := h.year y hyear
    obtain ⟨c, digits, hcons⟩ := List.exists_cons_of_ne_nil (year_ne_nil hdigits)
    have hc := mark_of_mem_year hU hdigits c (hcons ▸ List.mem_cons_self)
    rw [Spelling.after, hyear, Option.map_some, Option.getD_some, YearForm.text, hcons]
    generalize (s.tags.map fun x => x.1 ++ x.2).getD [] = tags
    by_cases hbracketed : y.bracketed = true
    · refine Or.inr ⟨y.gap, ['('], c, digits ++ [')'] ++ tags, ?_, hg, ?_, hc⟩
      · rw [if_pos hbracketed]
        simp
      · intro d hd
        obtain rfl := List.mem_singleton.mp hd
        rfl
    · refine Or.inr ⟨y.gap, [], c, digits ++ tags, ?_, hg, List.forall_mem_nil _, hc⟩
      rw [if_neg hbracketed]
      simp

theorem wordsOf_text (hU : U.Lawful) (h : Spells U N s) :
    wordsOf s.text = s.words ++ wordsOf s.after := by
  have hsolid : ∀ w ∈ s.words, SolidWord w := fun w hw => (h.word w hw).solidWord hU
  have hname := wordsOf_spread h.spread hsolid
  rcases after_cases hU h with hafter | ⟨g, b, c, z, hafter, hg, -, -⟩
  · rw [Spelling.text, hafter, wordsOf_nil, List.append_nil, List.append_nil, hname]
  · have hgap := wordsOf_gap hg [] (b ++ c :: z)
    rw [List.nil_append, wordsOf_nil, List.nil_append] at hgap
    rw [Spelling.text, hafter, wordsOf_gap hg, hname, hgap]

/-- **A spelling that is cleaned** is the words of the name, and then words the first of which has a
letter. -/
theorem clean_text (hU : U.Lawful) (h : Spells U N s) : ∃ rest,
    clean s.text = Words.join ' ' (s.words ++ rest) ∧
      (∀ w ∈ rest, Words.IsWord isWhitespace w) ∧ ∀ v ∈ rest.head?, 1 ≤ U.letters v := by
  have hsolid : ∀ w ∈ s.words, SolidWord w := fun w hw => (h.word w hw).solidWord hU
  have hne := h.spread.ne_nil
  have hwords := wordsOf_text hU h
  rcases after_cases hU h with hafter | ⟨g, b, c, z, hafter, hg, hb, hc⟩
  · rw [hafter, wordsOf_nil, List.append_nil] at hwords
    refine ⟨[], ?_, List.forall_mem_nil _, by simp⟩
    rw [List.append_nil]
    exact clean_solid hne hsolid hwords
  · have hcsolid := hU.solid_of_mark hc
    have hgap := wordsOf_gap hg [] (b ++ c :: z)
    rw [List.nil_append, wordsOf_nil, List.nil_append] at hgap
    obtain ⟨v, vs, hv⟩ := wordsOf_brackets hb hcsolid z
    rw [hafter, hgap, hv] at hwords
    obtain ⟨v', vs', hclean, hrest⟩ := clean_name hne hsolid hb hcsolid hwords
    refine ⟨_, hclean, hrest, ?_⟩
    intro x hx
    obtain rfl := Option.some.inj hx
    exact (hU.letters_mark hc).trans (letters_le_of_sublist hU (by simp))

theorem letters_spread (hU : U.Lawful) {ws : List (List Char)} (h : Spread ws t) :
    U.letters t = (ws.map U.letters).sum := by
  have hgap : ∀ g : List Char, (∀ c ∈ g, isWhitespace c = true ∨ isSeparator c = true) →
      U.letters g = 0 := by
    intro g
    induction g with
    | nil => exact fun _ => letters_nil hU
    | cons c g ih =>
      intro hg
      rw [letters_cons hU, hU.letters_gap (hg c List.mem_cons_self),
        ih fun d hd => hg d (List.mem_cons_of_mem c hd)]
  induction h with
  | one w => rw [List.map_singleton, List.sum_singleton]
  | cons w hg _ ih =>
    rw [hU.letters_append, hU.letters_append, hgap _ hg.blank, Nat.zero_add, ih, List.map_cons,
      List.sum_cons]

theorem letters_of_same {V W : List (List Char)} (h : V.map U.folded = W.map U.folded) :
    V.map U.letters = W.map U.letters := by
  have hcount (V : List (List Char)) :
      V.map U.letters = (V.map U.folded).map fun t => t.countP U.alphanumeric := by
    rw [List.map_map]
    rfl
  rw [hcount, hcount, h]

theorem clean_join {V : List (List Char)} (hne : V ≠ []) (hV : ∀ w ∈ V, SolidWord w) :
    clean (Words.join ' ' V) = Words.join ' ' V := by
  refine clean_solid hne hV ?_
  have hplain : (Words.join ' ' V).map unseparate = Words.join ' ' V := by
    refine map_unseparate fun c hc => ?_
    rcases Words.mem_join hc with rfl | ⟨w, hw, hcw⟩
    · decide
    · exact ((hV w hw).solid c hcw).notSeparator
  rw [wordsOf, hplain]
  exact Words.words_join (by decide) fun w hw => (hV w hw).isWord

/-- **What is left before a tag is read as it was.** -/
theorem normalizeShowName_take (hU : U.Lawful) {W : List (List Char)}
    (hne : W.take (firstTag U W) ≠ []) (hsolid : ∀ w ∈ W.take (firstTag U W), SolidWord w) :
    normalizeShowName U (String.ofList (Words.join ' ' (W.take (firstTag U W)))) =
      String.ofList (foldJoinKey U (Words.join ' ' ((kept U W).map U.lower))) := by
  have hkept : kept U (W.take (firstTag U W)) = kept U W := by
    rw [kept, firstTag_take hU le_rfl, List.take_take, Nat.min_self, kept]
  rw [normalizeShowName_of_clean hU hne (fun w hw => (hsolid w hw).isWord)
    (clean_join hne hsolid), hkept]

theorem normalizeShowName_name (hU : U.Lawful) (hN : ShowName U N) :
    normalizeShowName U (String.ofList (Words.join ' ' N)) =
      String.ofList (foldJoinKey U (Words.join ' ' (N.map U.lower))) := by
  have hwhole : N.take (firstTag U N) = N := List.take_of_length_le hN.untagged.ge
  have hdated : dated N = false := by
    rw [dated, Bool.and_eq_false_iff, Option.any_eq_false]
    exact Or.inr hN.last
  have hkept : kept U N = N := by
    rw [kept, hwhole, undated, hdated]
    rfl
  have hkey := normalizeShowName_take hU (by rw [hwhole]; exact hN.ne_nil)
    (by rw [hwhole]; exact fun w hw => (hN.word w hw).solidWord hU)
  rwa [hwhole, hkept] at hkey

end parts

/-! ### Which spellings share the key -/

section keys

variable {U : Unicode} {N : List (List Char)} {s : Spelling} {g m : List Char}

/-- **A spelling has the key of the name** exactly if it is cut off after it. -/
theorem normalizeShowName_text (hU : U.Lawful) (hN : ShowName U N) (hs : Spells U N s) :
    normalizeShowName U (String.ofList s.text) =
        normalizeShowName U (String.ofList (Words.join ' ' N)) ↔
      CutAfter U N.length (Words.words isWhitespace (clean s.text)) := by
  obtain ⟨rest, hclean, hrest, hletter⟩ := clean_text hU hs
  have hlen : s.words.length = N.length := by
    have h := congrArg List.length hs.same
    rwa [List.length_map, List.length_map] at h
  have hW : ∀ w ∈ s.words ++ rest, Words.IsWord isWhitespace w := by
    intro w hw
    rcases List.mem_append.mp hw with hw | hw
    · exact ((hs.word w hw).solidWord hU).isWord
    · exact hrest w hw
  have hne : s.words ++ rest ≠ [] := List.append_ne_nil_of_left_ne_nil hs.spread.ne_nil rest
  obtain ⟨j, hj, hkept, hcut⟩ := kept_eq_take U (s.words ++ rest)
  have hname : (s.words ++ rest).take N.length = s.words := List.take_left' hlen
  rw [hclean, Words.words_join (by decide) hW, ← hcut, normalizeShowName_name hU hN,
    normalizeShowName_of_clean hU hne hW hclean, hkept]
  constructor
  · intro hkeys
    -- the words that are left have as many letters as the name
    have hsums : (((s.words ++ rest).take j).map U.letters).sum =
        (((s.words ++ rest).take N.length).map U.letters).sum := by
      have hcount := congrArg (fun k : String => keyLetters k.toList) hkeys
      simp only [String.toList_ofList, keyLetters_foldJoinKey hU, letters_join hU, List.map_map,
        Function.comp_def, letters_lower hU] at hcount
      rw [hname, letters_of_same hs.same]
      exact hcount
    rcases lt_trichotomy j N.length with hlt | heq | hgt
    · have hjlt : j < (s.words ++ rest).length := by
        rw [List.length_append]
        omega
      have hword : (s.words ++ rest)[j] ∈ s.words := by
        rw [List.getElem_append_left (by omega)]
        exact List.getElem_mem _
      have hmore := sum_take_lt hjlt hlt ((hs.word _ hword).letters_pos hU)
      omega
    · exact heq
    · rw [List.length_append] at hj
      obtain ⟨v, vs, rfl⟩ := List.exists_cons_of_length_pos (l := rest) (by omega)
      have hnlt : N.length < (s.words ++ v :: vs).length := by
        rw [List.length_append, List.length_cons]
        omega
      have hword : (s.words ++ v :: vs)[N.length] = v := by
        rw [List.getElem_append_right (by omega)]
        simp [hlen]
      have hmore := sum_take_lt (f := U.letters) hnlt hgt (by rw [hword]; exact hletter v rfl)
      omega
  · rintro rfl
    rw [hname, foldJoinKey_join hU hs.spread.ne_nil hN.ne_nil hs.same]

theorem solid_of_cutAfter (hU : U.Lawful) (hs : Spells U N s) {W rest : List (List Char)}
    (hW : W = s.words ++ rest) (h : CutAfter U s.words.length W) :
    W.take (firstTag U W) ≠ [] ∧ ∀ w ∈ W.take (firstTag U W), SolidWord w := by
  have hsolid : ∀ w ∈ s.words, SolidWord w := fun w hw => (hs.word w hw).solidWord hU
  have hname : W.take s.words.length = s.words := by rw [hW, List.take_left]
  rcases h with ⟨hfirst, -⟩ | ⟨hfirst, hdated⟩
  · rw [hfirst, hname]
    exact ⟨hs.spread.ne_nil, hsolid⟩
  · have hlt : s.words.length < W.length := by
      have hle := firstTag_le (U := U) W
      omega
    rw [hfirst, List.take_succ_eq_append_getElem hlt, hname]
    rw [List.take_succ_eq_append_getElem hlt, dated, List.getLast?_concat, Bool.and_eq_true]
      at hdated
    refine ⟨List.append_ne_nil_of_left_ne_nil hs.spread.ne_nil _, fun w hw => ?_⟩
    rcases List.mem_append.mp hw with hw | hw
    · exact hsolid w hw
    · obtain rfl := List.mem_singleton.mp hw
      exact solidWord_of_isYear hU hdated.2

theorem tryEpisode_of_find {stem before rest : List Char} {q : Pos Char}
    (h : find (episodeRe U) none stem = some (before, rest, q)) :
    tryEpisode U stem = (markerToSe q).bind fun se =>
      if stripTags U (clean before) = [] then none
      else some (stripTags U (clean before), se.1, se.2) := by
  unfold tryEpisode
  rw [h]
  rfl

/-- **Where no marker begins within the name**, the episode is of what stands before the marker. -/
theorem tryEpisode_marked (hm : Marked U s g m)
    (h : ¬ MarkerInside U s.name (s.after ++ (g ++ m))) :
    ∃ se : ℕ × ℕ, tryEpisode U (s.text ++ (g ++ m)) =
      if stripTags U (clean s.text) = [] then none
      else some (stripTags U (clean s.text), se.1, se.2) := by
  obtain ⟨q, se, hfirst, hq⟩ := hm.first
  have hpass : ∀ a₁ a₂, s.name = a₁ ++ a₂ → a₂ ≠ [] →
      matchAt (episodeRe U) (lastOr none a₁) (a₂ ++ (s.after ++ (g ++ m))) = none := by
    intro a₁ a₂ hsplit hne
    by_contra hmatch
    refine h ⟨a₁.length, ?_, ?_⟩
    · rw [hsplit, List.length_append]
      exact Nat.lt_add_of_pos_right (List.length_pos_of_ne_nil hne)
    · rw [hsplit, List.take_left, List.drop_left]
      exact Option.isSome_iff_ne_none.mpr hmatch
  have hfind : find (episodeRe U) none (s.text ++ (g ++ m)) = some (s.text ++ g, m, q) := by
    rw [Spelling.text, List.append_assoc, find_append hpass, hfirst, Option.map_some,
      List.append_assoc]
  refine ⟨se, ?_⟩
  rw [tryEpisode_of_find hfind, hq, Option.bind_some, clean_append_gap hm.isGap]

theorem begins_episodeRe : Begins U.mark (episodeRe U) := by
  have hdigits : Begins U.mark (digitsUpTo U 1 2) := fun c hc => by
    rw [Unicode.mark, hc, Bool.true_or]
  exact ⟨begins_caseless (by decide), hdigits⟩

/-- **Where a marker begins within the name**, letters of the name are lost. -/
theorem letters_lt_of_markerInside (hU : U.Lawful) {name rest show' : List Char} {se : ℕ × ℕ}
    (h : MarkerInside U name rest) (hepisode : tryEpisode U (name ++ rest) = some (show', se)) :
    U.letters show' < U.letters name := by
  obtain ⟨i, hi, hmatch⟩ := h
  obtain ⟨before, rest', q, hfind, a', ha⟩ :=
    exists_find_of_matchAt (Option.isSome_iff_ne_none.mp hmatch)
  have hne : name.drop i ≠ [] := fun hnil => absurd (List.drop_eq_nil_iff.mp hnil) (by omega)
  have hname : name = before ++ a' ++ name.drop i := by rw [ha, List.take_append_drop]
  rw [← List.append_assoc, List.take_append_drop] at hfind
  generalize name.drop i = b at hne hname
  subst hname
  -- the name goes on with the first character of the marker
  obtain ⟨hsplit, hat⟩ := of_find hfind
  obtain ⟨c, z, rfl, hc⟩ := begins_episodeRe.of_matchAt hat
  obtain ⟨d, y, hd⟩ := List.exists_cons_of_ne_nil (List.append_ne_nil_of_right_ne_nil a' hne)
  rw [List.append_assoc before, List.append_assoc before, List.append_cancel_left_eq, hd,
    List.cons_append] at hsplit
  obtain ⟨rfl, -⟩ := List.cons.inj hsplit
  have hmore : U.letters before < U.letters (before ++ a' ++ b) := by
    have hpos := hU.letters_mark hc
    rw [List.append_assoc, hd, hU.letters_append, letters_cons hU]
    omega
  refine lt_of_le_of_lt ?_ hmore
  rw [tryEpisode_of_find hfind] at hepisode
  obtain ⟨se', -, hepisode⟩ := Option.bind_eq_some_iff.mp hepisode
  obtain ⟨-, hshow⟩ := Option.ite_none_left_eq_some.mp hepisode
  obtain ⟨rfl, -⟩ := Prod.mk.inj (Option.some.inj hshow)
  exact (letters_stripTags_le hU _).trans (letters_clean_le hU _)

/-- **Which spellings of a name share its key**: those that are cut off after the name, and no
marker begins within it. -/
theorem sharesKey_iff (hU : U.Lawful) (hN : ShowName U N) (hs : Spells U N s)
    (hm : Marked U s g m) :
    (normalizeShowName U (String.ofList s.text) =
        normalizeShowName U (String.ofList (Words.join ' ' N)) ∧
      (tryEpisode U (s.text ++ (g ++ m))).map
          (fun found => normalizeShowName U (String.ofList found.1)) =
        some (normalizeShowName U (String.ofList (Words.join ' ' N)))) ↔
      CutAfter U N.length (Words.words isWhitespace (clean s.text)) ∧
        ¬ MarkerInside U s.name (s.after ++ (g ++ m)) := by
  rw [normalizeShowName_text hU hN hs]
  refine and_congr_right fun hcut => ?_
  constructor
  · intro hkey hinside
    obtain ⟨⟨show', se⟩, hepisode, hkey⟩ := Option.map_eq_some_iff.mp hkey
    rw [Spelling.text, List.append_assoc] at hepisode
    have hlt := letters_lt_of_markerInside hU hinside hepisode
    have hle := keyLetters_normalizeShowName_le hU (String.ofList show')
    rw [hkey, normalizeShowName_name hU hN, String.toList_ofList, keyLetters_foldJoinKey hU,
      letters_join hU, List.map_map, String.toList_ofList] at hle
    simp only [Function.comp_def, letters_lower hU] at hle
    rw [letters_spread hU hs.spread, letters_of_same hs.same] at hlt
    have hle' : (N.map U.letters).sum ≤ U.letters show' := hle
    omega
  · intro hinside
    obtain ⟨se, hepisode⟩ := tryEpisode_marked hm hinside
    have hkey := (normalizeShowName_text hU hN hs).mpr hcut
    obtain ⟨rest, hclean, hrest, -⟩ := clean_text hU hs
    have hW : ∀ w ∈ s.words ++ rest, Words.IsWord isWhitespace w := by
      intro w hw
      rcases List.mem_append.mp hw with hw | hw
      · exact ((hs.word w hw).solidWord hU).isWord
      · exact hrest w hw
    have hlen : s.words.length = N.length := by
      have h := congrArg List.length hs.same
      rwa [List.length_map, List.length_map] at h
    rw [hclean, Words.words_join (by decide) hW, ← hlen] at hcut
    obtain ⟨hne, hsolid⟩ := solid_of_cutAfter hU hs rfl hcut
    have hnonempty : Words.join ' ' ((s.words ++ rest).take (firstTag U (s.words ++ rest))) ≠ [] :=
      Words.join_ne_nil (fun w hw => (hsolid w hw).isWord) hne
    rw [hepisode, hclean, stripTags_join hU hW, if_neg hnonempty, Option.map_some,
      normalizeShowName_take hU hne hsolid, ← hkey,
      normalizeShowName_of_clean hU (List.append_ne_nil_of_left_ne_nil hs.spread.ne_nil rest) hW
        hclean]

theorem Word.of_isAlphanum {c : Char} {w : List Char}
    (h : (c :: w).all Char.isAlphanum = true) : Word .ascii (c :: w) :=
  ⟨fun d hd => Or.inl (List.all_eq_true.mp h d hd),
    c, List.mem_cons_self, List.all_eq_true.mp h c List.mem_cons_self, rfl⟩

theorem Gap.single {c : Char} (h : isWhitespace c = true ∨ isSeparator c = true) : Gap [c] :=
  ⟨List.cons_ne_nil c [], List.forall_mem_singleton.mpr h⟩

def adventureTime : Spelling where
  words := ["adventure".toList, "time".toList]
  name := "adventure".toList ++ (['.'] ++ "time".toList)
  year := some ⟨['.'], "2008".toList, false⟩
  tags := some (['.'], "1080p.bluray.x265".toList)

theorem sharesKey_adventureTime :
    normalizeShowName .ascii (String.ofList adventureTime.text) =
        normalizeShowName .ascii
          (String.ofList (Words.join ' ' ["Adventure".toList, "Time".toList])) ∧
      (tryEpisode .ascii (adventureTime.text ++ (['.'] ++ "S01E01".toList))).map
          (fun found => normalizeShowName .ascii (String.ofList found.1)) =
        some (normalizeShowName .ascii
          (String.ofList (Words.join ' ' ["Adventure".toList, "Time".toList]))) := by
  have hname : ShowName .ascii ["Adventure".toList, "Time".toList] := by
    refine ⟨by decide, List.forall_mem_cons.mpr ⟨?_, List.forall_mem_singleton.mpr ?_⟩,
      by decide +kernel, by rintro y ⟨⟩; rfl⟩
    all_goals exact Word.of_isAlphanum rfl
  have hdot : Gap ['.'] := Gap.single (Or.inr rfl)
  have hspells : Spells .ascii ["Adventure".toList, "Time".toList] adventureTime := by
    refine ⟨.cons _ hdot (.one _),
      List.forall_mem_cons.mpr ⟨?_, List.forall_mem_singleton.mpr ?_⟩, by decide, ?_, ?_⟩
    iterate 2 exact Word.of_isAlphanum rfl
    · rintro y ⟨⟩
      exact ⟨hdot, rfl⟩
    · rintro x ⟨⟩
      exact ⟨hdot, [], _, rfl, List.forall_mem_nil _, by decide +kernel⟩
  have hmarked : Marked .ascii adventureTime ['.'] "S01E01".toList :=
    ⟨hdot, ⟨some '1', [], [(1, ['0', '1']), (2, ['0', '1'])]⟩, (1, 1), rfl, rfl⟩
  exact (sharesKey_iff Unicode.ascii_lawful hname hspells hmarked).mpr
    ⟨by decide +kernel, by decide +kernel⟩

def alteredCarbon : Spelling where
  words := ["Altered".toList, "Carbon".toList]
  name := "Altered".toList ++ ([' '] ++ "Carbon".toList)
  year := some ⟨[' '], "2018".toList, true⟩
  tags := none

/-- **A year in brackets is kept in the key**: the bracket at the end is dropped, and what is left
is no year. -/
theorem not_sharesKey_bracketed : ¬ ∀ (U : Unicode) (N : List (List Char)) (s : Spelling)
    (g m : List Char), U.Lawful → ShowName U N → Spells U N s → Marked U s g m →
      normalizeShowName U (String.ofList s.text) =
          normalizeShowName U (String.ofList (Words.join ' ' N)) ∧
        (tryEpisode U (s.text ++ (g ++ m))).map
            (fun found => normalizeShowName U (String.ofList found.1)) =
          some (normalizeShowName U (String.ofList (Words.join ' ' N))) := by
  intro hall
  have hword : ∀ w ∈ alteredCarbon.words, Word .ascii w := by
    refine List.forall_mem_cons.mpr ⟨?_, List.forall_mem_singleton.mpr ?_⟩
    all_goals exact Word.of_isAlphanum rfl
  have hname : ShowName .ascii alteredCarbon.words :=
    ⟨by decide, hword, by decide +kernel, by rintro y ⟨⟩; rfl⟩
  have hspace : Gap [' '] := Gap.single (Or.inl rfl)
  have hspells : Spells .ascii alteredCarbon.words alteredCarbon := by
    refine ⟨.cons _ hspace (.one _), hword, rfl, ?_, by rintro x ⟨⟩⟩
    rintro y ⟨⟩
    exact ⟨hspace, rfl⟩
  have hmarked : Marked .ascii alteredCarbon [' '] "S01E01".toList :=
    ⟨hspace, ⟨some '1', [], [(1, ['0', '1']), (2, ['0', '1'])]⟩, (1, 1), rfl, rfl⟩
  obtain ⟨hkey, -⟩ := hall _ _ _ _ _ Unicode.ascii_lawful hname hspells hmarked
  have hcut := (normalizeShowName_text Unicode.ascii_lawful hname hspells).mp hkey
  exact absurd hcut (by decide +kernel)

end keys

end EmeraldExchange.MediaCore
