import Mathlib.Data.List.DropRight
import EmeraldExchange.Lib.Takes
import EmeraldExchange.MediaCore.Filename

/-!
# Names as words

A name that is cleaned is a list of words with single spaces between them, and what
`crates/media-core/src/filename.rs` does with it is said word by word: the words from the first mark
of quality on are dropped (`stripTags_join`), and so is a year in the last
place (`stripTrailingYear_join`).

The words of a name are those that its text is made of, however they are set apart
(`wordsOf_spread`). Brackets belong to words, and only those at the very
beginning and the very end of a name are dropped, so a name of letters and digits is left as it is
whatever follows it (`clean_name`).
-/

namespace EmeraldExchange.MediaCore

open Regex

/-! ### Characters -/

/-- `clean` takes these for spaces. -/
def isSeparator (c : Char) : Bool := c ∈ ['.', '_', '-']

/-- `clean` drops these at both ends. -/
def isBracket (c : Char) : Bool := c ∈ ['(', ')', '[', ']', '{', '}']

/-- **A character that `clean` leaves alone**, wherever it stands. -/
structure Solid (c : Char) : Prop where
  notBlank : isWhitespace c = false
  notSeparator : isSeparator c = false
  notBracket : isBracket c = false

structure SolidWord (w : List Char) : Prop where
  ne_nil : w ≠ []
  solid : ∀ c ∈ w, Solid c

/-- **What may stand between two words.** -/
structure Gap (g : List Char) : Prop where
  ne_nil : g ≠ []
  blank : ∀ c ∈ g, isWhitespace c = true ∨ isSeparator c = true

def unseparate (c : Char) : Char := if c ∈ ['.', '_', '-'] then ' ' else c

theorem unseparate_of_not {c : Char} (h : isSeparator c = false) : unseparate c = c :=
  if_neg (of_decide_eq_false h)

theorem map_unseparate {t : List Char} (h : ∀ c ∈ t, isSeparator c = false) :
    t.map unseparate = t :=
  (List.map_congr_left fun c hc => unseparate_of_not (h c hc)).trans (List.map_id t)

theorem Gap.unseparate {g : List Char} (h : Gap g) :
    ∀ c ∈ g.map unseparate, isWhitespace c = true := by
  intro c hc
  obtain ⟨d, hd, rfl⟩ := List.mem_map.mp hc
  by_cases hsep : isSeparator d = true
  · rw [MediaCore.unseparate, if_pos (of_decide_eq_true hsep)]
    decide
  · rw [unseparate_of_not (Bool.eq_false_iff.mpr hsep)]
    exact (h.blank d hd).resolve_right hsep

theorem SolidWord.isWord {w : List Char} (h : SolidWord w) : Words.IsWord isWhitespace w :=
  ⟨h.ne_nil, fun c hc => (h.solid c hc).notBlank⟩

theorem SolidWord.map_unseparate {w : List Char} (h : SolidWord w) : w.map unseparate = w :=
  MediaCore.map_unseparate fun c hc => (h.solid c hc).notSeparator

theorem of_isBracket {c : Char} (h : isBracket c = true) :
    isWhitespace c = false ∧ isSeparator c = false := by
  have hall : ['(', ')', '[', ']', '{', '}'].all
      (fun d => !isWhitespace d && !isSeparator d) = true := by decide
  have hc := List.all_eq_true.mp hall c (of_decide_eq_true h)
  rwa [Bool.and_eq_true, Bool.not_eq_true', Bool.not_eq_true'] at hc

/-! ### The words of a text -/

section words

variable {g w a b : List Char} {parts : List (List Char)} {c : Char}

/-- The words that `clean` finds in a text. -/
def wordsOf (t : List Char) : List (List Char) := Words.words isWhitespace (t.map unseparate)

theorem wordsOf_nil : wordsOf [] = [] := Words.words_nil

theorem wordsOf_gap (hg : Gap g) (a b : List Char) :
    wordsOf (a ++ (g ++ b)) = wordsOf a ++ wordsOf b := by
  rw [wordsOf, List.map_append, List.map_append]
  exact Words.words_append_seps _ (by simpa using hg.ne_nil) hg.unseparate _

theorem wordsOf_solid (h : SolidWord w) : wordsOf w = [w] := by
  rw [wordsOf, h.map_unseparate, Words.words_of_isWord h.isWord]

theorem isWord_of_mem_wordsOf (h : w ∈ wordsOf a) : Words.IsWord isWhitespace w :=
  Words.isWord_of_mem_words h

/-- **Parts of a text with gaps between them.** -/
inductive Spread : List (List Char) → List Char → Prop
  | one (w : List Char) : Spread [w] w
  | cons (w : List Char) {g t : List Char} {ws : List (List Char)} (hg : Gap g)
      (hrest : Spread ws t) : Spread (w :: ws) (w ++ (g ++ t))

theorem Spread.ne_nil (h : Spread parts a) : parts ≠ [] := by
  cases h with
  | one => exact List.cons_ne_nil _ _
  | cons => exact List.cons_ne_nil _ _

/-- **Words are found however they are set apart.** -/
theorem wordsOf_spread (h : Spread parts a) (hparts : ∀ w ∈ parts, SolidWord w) :
    wordsOf a = parts := by
  induction h with
  | one w => exact wordsOf_solid (hparts w List.mem_cons_self)
  | cons w hg _ ih =>
    rw [wordsOf_gap hg, wordsOf_solid (hparts w List.mem_cons_self),
      ih fun v hv => hparts v (List.mem_cons_of_mem w hv)]
    rfl

theorem words_brackets (hb : ∀ d ∈ b, isBracket d = true) (hc : Solid c) (t : List Char) :
    ∃ v vs, Words.words isWhitespace (b ++ c :: t) = (b ++ c :: v) :: vs := by
  have hblank : ∀ d ∈ b ++ [c], isWhitespace d = false := by
    intro d hd
    rcases List.mem_append.mp hd with hd | hd
    · exact (of_isBracket (hb d hd)).1
    · obtain rfl := List.mem_singleton.mp hd
      exact hc.notBlank
  obtain ⟨v, vs, hwords⟩ := Words.words_append_of_isWord ⟨by simp, hblank⟩ t
  refine ⟨v, vs, ?_⟩
  rw [List.append_assoc, List.append_assoc] at hwords
  exact hwords

theorem wordsOf_brackets (hb : ∀ d ∈ b, isBracket d = true) (hc : Solid c) (t : List Char) :
    ∃ v vs, wordsOf (b ++ c :: t) = (b ++ c :: v) :: vs := by
  rw [wordsOf, List.map_append, List.map_cons, unseparate_of_not hc.notSeparator,
    map_unseparate fun d hd => (of_isBracket (hb d hd)).2]
  exact words_brackets hb hc _

end words

/-! ### What is cut off at the end -/

section ends

variable {p : Char → Bool} {a b : List Char} {c : Char}

theorem rdropWhile_cons (hp : p c = false) : (c :: b).rdropWhile p = c :: b.rdropWhile p := by
  rw [List.rdropWhile, List.rdropWhile, List.reverse_cons, List.dropWhile_append]
  split
  · next hnil =>
    rw [List.isEmpty_iff.mp hnil, List.dropWhile_cons_of_neg (by simp [hp])]
    rfl
  · rw [List.reverse_append]
    rfl

theorem rdropWhile_append (hp : p c = false) :
    (a ++ c :: b).rdropWhile p = a ++ c :: b.rdropWhile p := by
  have hcons := rdropWhile_cons (b := b) hp
  have hne : (c :: b).reverse.dropWhile p ≠ [] := by
    intro hnil
    rw [List.rdropWhile, hnil] at hcons
    cases hcons
  rw [← hcons, List.rdropWhile, List.reverse_append, List.dropWhile_append,
    if_neg (by simpa using hne), List.reverse_append, List.reverse_reverse, List.rdropWhile]

theorem rdropWhile_of_getLast? (h : ∀ c, b.getLast? = some c → p c = false) :
    b.rdropWhile p = b :=
  List.rdropWhile_eq_self_iff.mpr fun hne =>
    Bool.eq_false_iff.mp (h _ (List.getLast?_eq_some_getLast hne))

end ends

/-! ### Cleaning -/

section clean

variable {g t x : List Char} {names ws vs : List (List Char)} {c : Char}

theorem clean_append_gap (hg : Gap g) (t : List Char) : clean (t ++ g) = clean t := by
  have hwords := wordsOf_gap hg t []
  rw [List.append_nil, wordsOf_nil, List.append_nil] at hwords
  show trim (trimMatches isBracket (Words.join ' ' (wordsOf (t ++ g)))) = _
  rw [hwords]
  rfl

def cutEnd (t : List Char) : List Char := (t.rdropWhile isBracket).rdropWhile isWhitespace

theorem cutEnd_append (hc : Solid c) (a b : List Char) :
    cutEnd (a ++ c :: b) = a ++ c :: cutEnd b := by
  rw [cutEnd, rdropWhile_append hc.notBracket, rdropWhile_append hc.notBlank, cutEnd]

theorem cutEnd_isPrefix (t : List Char) : cutEnd t <+: t :=
  (List.rdropWhile_prefix _ _).trans (List.rdropWhile_prefix _ _)

theorem clean_of_wordsOf (h : Words.join ' ' (wordsOf t) = c :: x) (hc : Solid c) :
    clean t = cutEnd (c :: x) := by
  show (((Words.join ' ' (wordsOf t)).dropWhile isBracket).rdropWhile
    isBracket |>.dropWhile isWhitespace).rdropWhile isWhitespace = _
  rw [h, List.dropWhile_cons_of_neg (by simp [hc.notBracket]), rdropWhile_cons hc.notBracket,
    List.dropWhile_cons_of_neg (by simp [hc.notBlank]), ← rdropWhile_cons hc.notBracket]
  rfl

theorem exists_join_solid (hne : names ≠ []) (hnames : ∀ w ∈ names, SolidWord w) :
    ∃ c x, Words.join ' ' names = c :: x ∧ Solid c := by
  obtain ⟨w, ws, rfl⟩ := List.exists_cons_of_ne_nil hne
  have hw := hnames w List.mem_cons_self
  obtain ⟨c, v, rfl⟩ := List.exists_cons_of_ne_nil hw.ne_nil
  obtain ⟨r, hr⟩ := Words.exists_join_cons ' ' (c :: v) ws
  exact ⟨c, v ++ r, hr, hw.solid c List.mem_cons_self⟩

theorem solid_of_getLast?_join (hnames : ∀ w ∈ names, SolidWord w)
    (h : (Words.join ' ' names).getLast? = some c) : Solid c := by
  rcases Words.mem_join (List.mem_of_getLast? h) with rfl | ⟨w, hw, hc⟩
  · exact absurd h (Words.getLast?_join (by decide) fun w hw => (hnames w hw).isWord)
  · exact (hnames w hw).solid c hc

/-- **Words of letters are a name as it is cleaned.** -/
theorem clean_solid (hne : names ≠ []) (hnames : ∀ w ∈ names, SolidWord w)
    (h : wordsOf t = names) : clean t = Words.join ' ' names := by
  obtain ⟨c, x, hjoin, hc⟩ := exists_join_solid hne hnames
  rw [clean_of_wordsOf (h ▸ hjoin) hc, ← hjoin, cutEnd,
    rdropWhile_of_getLast? fun d hd => (solid_of_getLast?_join hnames hd).notBracket,
    rdropWhile_of_getLast? fun d hd => (solid_of_getLast?_join hnames hd).notBlank]

/-- **A name of letters stays as it is** when something follows it, and so does the first letter of
what follows. -/
theorem clean_name {b v : List Char} (hne : names ≠ []) (hnames : ∀ w ∈ names, SolidWord w)
    (hb : ∀ d ∈ b, isBracket d = true) (hc : Solid c)
    (h : wordsOf t = names ++ (b ++ c :: v) :: vs) :
    ∃ v' vs', clean t = Words.join ' ' (names ++ (b ++ c :: v') :: vs') ∧
      ∀ w ∈ (b ++ c :: v') :: vs', Words.IsWord isWhitespace w := by
  have hvs : ∀ w ∈ (b ++ c :: v) :: vs, Words.IsWord isWhitespace w := fun w hw =>
    isWord_of_mem_wordsOf (a := t) (h ▸ List.mem_append_right _ hw)
  -- only what follows the first letter is cut
  obtain ⟨r, hr⟩ := Words.exists_join_cons ' ' (b ++ c :: v) vs
  rw [List.append_assoc, List.cons_append] at hr
  have hclean : clean t =
      Words.join ' ' names ++ ' ' :: (b ++ c :: cutEnd (v ++ r)) := by
    obtain ⟨d, x, hname, hd⟩ := exists_join_solid hne hnames
    have hjoin : Words.join ' ' (wordsOf t) =
        d :: (x ++ ' ' :: (b ++ c :: (v ++ r))) := by
      rw [h, Words.join_append hne (List.cons_ne_nil _ _), hr, hname, List.cons_append]
    rw [clean_of_wordsOf hjoin hd, hname, ← List.cons_append, ← List.cons_append,
      ← List.append_assoc, cutEnd_append hc, List.append_assoc]
    rfl
  -- what is left are words
  have hcut : b ++ c :: cutEnd (v ++ r) =
      (b ++ c :: (v ++ r).rdropWhile isBracket).rdropWhile isWhitespace := by
    rw [rdropWhile_append hc.notBlank, cutEnd]
  have hlast : (b ++ c :: cutEnd (v ++ r)).getLast? ≠ some ' ' := by
    intro hlast
    rw [hcut] at hlast
    obtain ⟨hne, hget⟩ := List.mem_getLast?_eq_getLast hlast
    exact List.rdropWhile_last_not isWhitespace _ hne (hget ▸ rfl)
  have hprefix : b ++ c :: cutEnd (v ++ r) <+: Words.join ' ' ((b ++ c :: v) :: vs) := by
    rw [hr]
    exact (List.prefix_append_right_inj b).mpr
      ((List.prefix_cons_inj c).mpr (cutEnd_isPrefix (v ++ r)))
  have hjoin := Words.join_words_of_prefix (p := isWhitespace) (by decide) hvs hprefix hlast
  obtain ⟨v', vs', hwords⟩ := words_brackets hb hc (cutEnd (v ++ r))
  rw [hwords] at hjoin
  refine ⟨v', vs', ?_, fun w hw => Words.isWord_of_mem_words (hwords ▸ hw)⟩
  rw [hclean, Words.join_append hne (List.cons_ne_nil _ _), hjoin]

end clean

end EmeraldExchange.MediaCore
