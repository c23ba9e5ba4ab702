import EmeraldExchange.MediaCore.Cleaning

/-!
# Release tags

What `strip_tags` and `strip_trailing_year` of `crates/media-core/src/filename.rs` make of a name
that is a list of words: the words from the first release tag on are dropped
(`stripTags_join`), and a year in the last place
(`stripTrailingYear_join`). What is left has no tag of its own
(`firstTag_take`), although a tag is only one where a word ends.

What the tables of Unicode promise is said once (`Unicode.Lawful`), and
those of ASCII keep it.
-/

namespace EmeraldExchange.MediaCore

open Regex

/-! ### The tables -/

section tables

variable (U : Unicode)

/-- What an expression may take for a digit, or for a letter of ASCII. -/
def Unicode.mark (c : Char) : Bool := U.digit c || (U.fold c).isAlphanum

/-- A text without case and accents, and with words for signs. -/
def Unicode.folded (text : List Char) : List Char :=
  ((U.nfd (U.lower text)).filter (!U.combining ·)).flatMap fun c =>
    if c = '&' then "and".toList else [c]

/-- The number of letters and digits that a text has in a key. -/
def Unicode.letters (text : List Char) : ℕ := (U.folded text).countP U.alphanumeric

/-- The expression for a release tag, without what stands before it. -/
def tagRe : Regex Char := seq [oneOf (noiseTokens U), .alt (.boundary U.word) .stop]

/-- **A release tag begins the text.** -/
def tagAt (text : List Char) : Bool := (matchAt (tagRe U) (some ' ') text).isSome

/-- **What the tables of Unicode promise.** -/
structure Unicode.Lawful : Prop where
  /-- Nothing is carried over a space. -/
  lower_space (a b : List Char) : U.lower (a ++ ' ' :: b) = U.lower a ++ ' ' :: U.lower b
  nfd_space (a b : List Char) : U.nfd (a ++ ' ' :: b) = U.nfd a ++ ' ' :: U.nfd b
  lower_lower (text : List Char) : U.lower (U.lower text) = U.lower text
  /-- In lower case there are neither more nor fewer spaces. -/
  lower_isWord {w : List Char} (h : Words.IsWord isWhitespace w) :
    Words.IsWord isWhitespace (U.lower w)
  /-- Digits of ASCII have no case, and nothing else becomes one. -/
  lower_digits {text : List Char} (h : text.all Char.isDigit ∨ (U.lower text).all Char.isDigit) :
    U.lower text = text
  /-- An expression without case sees no case. -/
  lower_tag (text : List Char) : tagAt U (U.lower text) = tagAt U text
  /-- Letters are letters whatever they stand next to. -/
  letters_append (a b : List Char) : U.letters (a ++ b) = U.letters a + U.letters b
  letters_pos {c : Char} (h : U.alphanumeric c = true) (hc : U.combining c = false) :
    1 ≤ U.letters [c]
  letters_gap {c : Char} (h : isWhitespace c = true ∨ isSeparator c = true) : U.letters [c] = 0
  /-- Letters, digits and accents are no spaces, separators or brackets. -/
  solid {c : Char} (h : U.alphanumeric c = true ∨ U.combining c = true) : Solid c
  digit_ascii {c : Char} (h : c.isDigit = true) : U.digit c = true
  mark_alphanumeric {c : Char} (h : U.mark c = true) :
    U.alphanumeric c = true ∧ U.combining c = false
  mark_word {c : Char} (h : U.mark c = true) : U.word c = true
  word_space : U.word ' ' = false
  word_plus : U.word '+' = false

end tables

variable {U : Unicode} {p : Char → Bool}

theorem Unicode.Lawful.solid_of_mark (hU : U.Lawful) {c : Char} (h : U.mark c = true) : Solid c :=
  hU.solid (Or.inl (hU.mark_alphanumeric h).1)

theorem Unicode.Lawful.mark_of_isDigit (hU : U.Lawful) {c : Char} (h : c.isDigit = true) :
    U.mark c = true := by
  rw [Unicode.mark, hU.digit_ascii h, Bool.true_or]

theorem Unicode.Lawful.space (hU : U.Lawful) :
    U.alphanumeric ' ' = false ∧ U.combining ' ' = false := by
  have hnot : ¬ Solid ' ' := fun h => absurd h.notBlank (by decide)
  exact ⟨Bool.eq_false_iff.mpr fun h => hnot (hU.solid (Or.inl h)),
    Bool.eq_false_iff.mpr fun h => hnot (hU.solid (Or.inr h))⟩

/-! ### How tags are written -/

section tokens

theorem begins_caseless {w : String} (h : w.toList.head?.any Char.isAlphanum = true) :
    Begins U.mark (caseless U w) := by
  rcases hw : w.toList with _ | ⟨a, l⟩
  · rw [hw] at h
    cases h
  · rw [hw] at h
    rw [caseless, hw]
    refine begins_wordBy fun c hc => ?_
    have ha : a.isAlphanum = true := h
    rw [Unicode.mark, hc, ha, Bool.or_true]

theorem begins_noiseTokens : ∀ r ∈ noiseTokens U, Begins U.mark r := by
  have hdigits : Begins U.mark (digitsUpTo U 3 4) := fun c hc => by
    rw [Unicode.mark, hc, Bool.true_or]
  simp (disch := decide) [noiseTokens, seq, Begins, hdigits, begins_caseless]

theorem blind_noiseTokens : ∀ r ∈ noiseTokens U, Blind r := by
  have hdigits : Blind (digitsUpTo U 3 4) := by
    simp [digitsUpTo, seq, List.replicate, upTo, opt, Blind]
  have hword : ∀ w, Blind (caseless U w) := fun w => blind_wordBy w.toList
  have hliteral : ∀ w : List Char, Blind (literal w) := blind_wordBy
  simp [noiseTokens, seq, opt, Blind, hdigits, hword, hliteral, caselessOne]

theorem takes_caseless {w : String} (h : w.toList ≠ []) : Takes (caseless U w) :=
  takes_wordBy h

theorem endsIn_caseless (hU : U.Lawful) {w : String} (h : w.toList.all Char.isAlphanum = true) :
    EndsIn U.word (caseless U w) := by
  refine endsIn_wordBy fun a ha c hc => hU.mark_word ?_
  rw [Unicode.mark, hc, List.all_eq_true.mp h a ha, Bool.or_true]

theorem endsIn_caselessOne (hU : U.Lawful) {w : String} (h : w.toList.all Char.isAlphanum = true) :
    EndsIn U.word (caselessOne U w) := by
  intro c hc
  refine hU.mark_word ?_
  rw [Unicode.mark, List.all_eq_true.mp h _ (of_decide_eq_true hc), Bool.or_true]

def hdrPlus (U : Unicode) : Regex Char := seq [caseless U "hdr10", opt (literal ['+'])]

/-- **A tag ends with a letter or a digit**, but for one. -/
theorem endsIn_noiseTokens (hU : U.Lawful) :
    ∀ r ∈ noiseTokens U, EndsIn U.word r ∨ r = hdrPlus U := by
  have hword {w : String} := endsIn_caseless hU (w := w)
  have hone {w : String} := endsIn_caselessOne hU (w := w)
  have htakes {w : String} := takes_caseless (U := U) (w := w)
  have htakesOne (w : String) : Takes (caselessOne U w) := trivial
  simp (disch := decide) [noiseTokens, seq, opt, EndsIn, Takes, hword, hone, htakes, htakesOne,
    hdrPlus]

end tokens

/-! ### Tags at the end of a text -/

section tagAt

variable {t : List Char} {d : Char}

theorem tagAt_iff : tagAt U t = true ↔ ∃ r ∈ noiseTokens U, ∃ q ∈ run r ⟨some ' ', t, []⟩,
    q.prev.any U.word ≠ q.rest.head?.any U.word ∨ q.rest = [] := by
  have hruns : tagAt U t = true ↔ ∃ q, q ∈ run (tagRe U) ⟨some ' ', t, []⟩ := by
    rw [tagAt, matchAt, List.isSome_head?]
    refine ⟨List.exists_mem_of_ne_nil _, ?_⟩
    rintro ⟨q, hq⟩
    exact List.ne_nil_of_mem hq
  rw [hruns]
  constructor
  · rintro ⟨q', hq'⟩
    obtain ⟨q, hq, hq'⟩ := mem_run_cat.mp hq'
    obtain ⟨r, hr, hqr⟩ := mem_run_oneOf.mp hq
    obtain ⟨q₂, hq₂, -⟩ := mem_run_cat.mp hq'
    refine ⟨r, hr, q, hqr, ?_⟩
    rcases List.mem_append.mp hq₂ with hq₂ | hq₂
    · exact Or.inl (mem_run_boundary.mp hq₂).2
    · exact Or.inr (List.isEmpty_iff.mp (List.mem_ite_nil_right.mp hq₂).1)
  · rintro ⟨r, hr, q, hq, hend⟩
    refine ⟨q, mem_run_cat.mpr ⟨q, mem_run_oneOf.mpr ⟨r, hr, hq⟩,
      mem_run_cat.mpr ⟨q, ?_, List.mem_singleton_self q⟩⟩⟩
    rcases hend with hend | hend
    · exact List.mem_append_left _ (mem_run_boundary.mpr ⟨rfl, hend⟩)
    · exact List.mem_append_right _
        (List.mem_ite_nil_right.mpr ⟨List.isEmpty_iff.mpr hend, List.mem_singleton_self q⟩)

theorem exists_of_tagAt (h : tagAt U t = true) : ∃ c z, t = c :: z ∧ U.mark c = true := by
  obtain ⟨r, hr, q, hq, -⟩ := tagAt_iff.mp h
  exact (begins_noiseTokens r hr).of_mem_run hq

theorem tagAt_nil : tagAt U [] = false := by
  refine Bool.eq_false_iff.mpr fun h => ?_
  obtain ⟨c, z, hnil, -⟩ := exists_of_tagAt h
  cases hnil

theorem exists_of_hdrPlus (hU : U.Lawful) {q q' : Pos Char} (h : q' ∈ run (hdrPlus U) q)
    (hrest : q'.rest = []) : ∃ q'' ∈ run (hdrPlus U) q,
      q''.prev.any U.word = true ∧ q''.rest.head?.any U.word = false := by
  obtain ⟨q₁, hq₁, hq'⟩ := mem_run_cat.mp h
  have hprev : q₁.prev.any U.word = true := by
    rcases (endsIn_caseless hU (w := "hdr10") (by decide)).of_mem_run hq₁ with ⟨-, hsame⟩ | hprev
    · have hlt := (takes_caseless (U := U) (w := "hdr10") (by decide)).length_lt hq₁
      rw [hsame] at hlt
      exact absurd hlt (lt_irrefl _)
    · exact hprev
  have hwhole : q₁ ∈ run (hdrPlus U) q := mem_run_cat.mpr ⟨q₁, hq₁,
    mem_run_cat.mpr ⟨q₁, mem_run_opt.mpr (Or.inr rfl), List.mem_singleton_self q₁⟩⟩
  refine ⟨q₁, hwhole, hprev, ?_⟩
  obtain ⟨q₂, hq₂, hq'⟩ := mem_run_cat.mp hq'
  obtain rfl := List.mem_singleton.mp hq'
  rcases mem_run_opt.mp hq₂ with hplus | rfl
  · rw [(mem_run_literal.mp hplus).1]
    exact hU.word_plus
  · rw [hrest]
    rfl

/-- **A tag at the end of a text is one where a word ends.** -/
theorem tagAt_append (hU : U.Lawful) (hd : U.word d = false) (z : List Char)
    (h : tagAt U t = true) : tagAt U (t ++ d :: z) = true := by
  obtain ⟨r, hr, q, hq, hend⟩ := tagAt_iff.mp h
  have hmore {q : Pos Char} (hq : q ∈ run r ⟨some ' ', t, []⟩) :=
    run_more (d :: z) (blind_noiseTokens r hr) hq
  rcases hrest : q.rest with _ | ⟨c, y⟩
  · -- the tag ends the text: what follows is not part of a word
    have hword : ∃ q₁ ∈ run r ⟨some ' ', t, []⟩, q₁.prev.any U.word = true ∧
        q₁.rest.head?.any U.word = false := by
      rcases endsIn_noiseTokens hU r hr with hends | rfl
      · rcases hends.of_mem_run hq with ⟨-, hsame⟩ | hprev
        · obtain ⟨c, z, hcons, -⟩ := (begins_noiseTokens r hr).of_mem_run hq
          rw [hrest, hcons] at hsame
          cases hsame
        · exact ⟨q, hq, hprev, by rw [hrest]; rfl⟩
      · exact exists_of_hdrPlus hU hq hrest
    obtain ⟨q₁, hq₁, hprev, hhead⟩ := hword
    refine tagAt_iff.mpr ⟨r, hr, q₁.more (d :: z), hmore hq₁, Or.inl ?_⟩
    show q₁.prev.any U.word ≠ (q₁.rest ++ d :: z).head?.any U.word
    rcases hq₁rest : q₁.rest with _ | ⟨c, y⟩
    · rw [hprev, List.nil_append, List.head?_cons, Option.any_some, hd]
      decide
    · rw [hq₁rest] at hhead
      rw [hprev, List.cons_append, List.head?_cons, ← List.head?_cons (l := y), hhead]
      decide
  · -- it does not: what is looked at is the same
    have hboundary := hend.resolve_right (by rw [hrest]; exact List.cons_ne_nil c y)
    refine tagAt_iff.mpr ⟨r, hr, q.more (d :: z), hmore hq, Or.inl ?_⟩
    show q.prev.any U.word ≠ (q.rest ++ d :: z).head?.any U.word
    rw [hrest] at hboundary ⊢
    exact hboundary

end tagAt

/-! ### Names that are cut at a tag -/

section cut

variable {W ws : List (List Char)} {w x : List Char} {prev : Option Char} {c : Char}

variable (U) in
/-- **The number of words before the first release tag.** -/
def firstTag : List (List Char) → ℕ
  | [] => 0
  | w :: ws => if tagAt U (Words.join ' ' (w :: ws)) then 0 else firstTag ws + 1

theorem firstTag_le : ∀ W, firstTag U W ≤ W.length
  | [] => le_rfl
  | w :: ws => by
    rw [firstTag]
    split
    · exact Nat.zero_le _
    · exact Nat.succ_le_succ (firstTag_le ws)

/-- **What stands before a tag has none of its own**, nor has a part of it. -/
theorem firstTag_take (hU : U.Lawful) : ∀ {W : List (List Char)} {n : ℕ}, n ≤ firstTag U W →
    firstTag U (W.take n) = n
  | [], n, h => by
    obtain rfl := Nat.le_zero.mp h
    rfl
  | w :: ws, 0, _ => rfl
  | w :: ws, n + 1, h => by
    rw [firstTag] at h
    split at h
    · exact absurd h (Nat.not_succ_le_zero n)
    · next hnone =>
      have hn := Nat.le_of_succ_le_succ h
      rw [List.take_succ_cons, firstTag, if_neg ?_, firstTag_take hU hn]
      -- a tag there would be one in the longer text
      intro htag
      refine hnone ?_
      rcases eq_or_ne (ws.drop n) [] with hdrop | hdrop
      · rwa [List.take_of_length_le (List.drop_eq_nil_iff.mp hdrop)] at htag
      · rw [← List.take_append_drop n ws, ← List.cons_append,
          Words.join_append (List.cons_ne_nil w _) hdrop]
        exact tagAt_append hU hU.word_space _ htag

theorem lower_join (hU : U.Lawful) : ∀ {W : List (List Char)}, W ≠ [] →
    U.lower (Words.join ' ' W) = Words.join ' ' (W.map U.lower)
  | [], h => absurd rfl h
  | [w], _ => by rw [Words.join_singleton, List.map_singleton, Words.join_singleton]
  | w :: v :: ws, _ => by
    rw [Words.join_cons_cons, hU.lower_space, lower_join hU (List.cons_ne_nil v ws),
      List.map_cons, List.map_cons, List.map_cons, Words.join_cons_cons]

theorem firstTag_lower (hU : U.Lawful) : ∀ W, firstTag U (W.map U.lower) = firstTag U W
  | [] => rfl
  | w :: ws => by
    rw [List.map_cons, firstTag, firstTag, firstTag_lower hU ws, ← List.map_cons,
      ← lower_join hU (List.cons_ne_nil w ws), hU.lower_tag]

def spaced (W : List (List Char)) : List Char := W.flatMap (' ' :: ·)

theorem spaced_cons (w : List Char) : ∀ ws, spaced (w :: ws) = ' ' :: Words.join ' ' (w :: ws)
  | [] => by simp [spaced, Words.join_singleton]
  | v :: ws => by
    rw [Words.join_cons_cons, ← spaced_cons v ws]
    rfl

theorem isSome_noise_space (hU : U.Lawful) (prev : Option Char) (x : List Char) :
    (matchAt (noiseRe U) prev (' ' :: x)).isSome = tagAt U x := by
  have hbegins : Begins U.mark (tagRe U) := begins_oneOf begins_noiseTokens
  have hspace : run (tagRe U) ⟨prev, ' ' :: x, []⟩ = [] := by
    refine List.eq_nil_iff_forall_not_mem.mpr fun q hq => ?_
    obtain ⟨c, z, hcons, hc⟩ := hbegins.of_mem_run hq
    obtain ⟨rfl, -⟩ := List.cons.inj hcons
    exact absurd (hU.solid_of_mark hc).notBlank (by decide)
  rw [tagAt, matchAt, matchAt]
  show (((if prev.isNone then [Pos.mk prev (' ' :: x) []] else []) ++
    [Pos.mk (some ' ') x []]).flatMap (run (tagRe U))).head?.isSome = _
  rw [List.flatMap_append, List.flatMap_singleton]
  split
  · rw [List.flatMap_singleton, hspace, List.nil_append]
  · rfl

theorem noise_inside {b : Char} (hx : x.head?.any isWhitespace = false) :
    matchAt (noiseRe U) (some b) x = none := by
  rw [matchAt, List.head?_eq_none_iff]
  show (([] ++ run (.one isWhitespace) ⟨some b, x, []⟩).flatMap (run (tagRe U))) = []
  rcases x with _ | ⟨c, z⟩
  · rfl
  · have hc : isWhitespace c = false := hx
    rw [run_one_cons rfl, if_neg (Bool.eq_false_iff.mp hc)]
    rfl

/-- **A search for tags stops before the first word that one begins with.** -/
theorem find_spaced (hU : U.Lawful) (hW : ∀ w ∈ W, Words.IsWord isWhitespace w)
    (hprev : prev ≠ none ∨ W ≠ []) : (find (noiseRe U) prev (spaced W)).map Prod.fst =
      if firstTag U W < W.length then some (spaced (W.take (firstTag U W))) else none := by
  induction W generalizing prev with
  | nil =>
    obtain ⟨b, rfl⟩ := Option.ne_none_iff_exists'.mp (hprev.resolve_right (absurd rfl))
    show ((matchAt (noiseRe U) (some b) []).map _).map _ = none
    rw [noise_inside rfl]
    rfl
  | cons w ws ih =>
    have hw := hW w List.mem_cons_self
    have hsome := isSome_noise_space hU prev (Words.join ' ' (w :: ws))
    rw [← spaced_cons] at hsome
    rw [firstTag]
    by_cases htag : tagAt U (Words.join ' ' (w :: ws)) = true
    · rw [htag] at hsome
      obtain ⟨q, hq⟩ := Option.isSome_iff_exists.mp hsome
      rw [find_of_matchAt hq, if_pos htag,
        if_pos (List.length_pos_of_ne_nil (List.cons_ne_nil w ws))]
      rfl
    · rw [Bool.eq_false_iff.mpr htag, Option.isSome_eq_false_iff,
        Option.isNone_iff_eq_none] at hsome
      have hskip : ∀ a₁ a₂, ' ' :: w = a₁ ++ a₂ → a₂ ≠ [] →
          matchAt (noiseRe U) (lastOr prev a₁) (a₂ ++ spaced ws) = none := by
        rintro (_ | ⟨b, a₁⟩) a₂ hsplit hne
        · obtain rfl : ' ' :: w = a₂ := hsplit
          exact hsome
        · obtain ⟨c, a₂, rfl⟩ := List.exists_cons_of_ne_nil hne
          obtain ⟨rfl, rfl⟩ : ' ' = b ∧ w = a₁ ++ c :: a₂ := List.cons.inj hsplit
          rw [lastOr_cons]
          have hlast : ∃ b, lastOr (some ' ') a₁ = some b := by
            rw [lastOr]
            rcases a₁.getLast? with _ | b
            · exact ⟨' ', rfl⟩
            · exact ⟨b, rfl⟩
          obtain ⟨b, hb⟩ := hlast
          rw [hb]
          exact noise_inside (hw.notSep c (by simp))
      have hlast : lastOr prev (' ' :: w) ≠ none := by
        rw [lastOr, Ne, Option.or_eq_none_iff, List.getLast?_eq_none_iff]
        exact fun h => List.cons_ne_nil _ _ h.1
      have hspaced : spaced (w :: ws) = (' ' :: w) ++ spaced ws := rfl
      rw [hspaced, find_append hskip, Option.map_map, if_neg htag]
      have hrest := ih (fun v hv => hW v (List.mem_cons_of_mem w hv)) (Or.inl hlast)
      have hcomp : (Prod.fst ∘ fun m : List Char × List Char × Pos Char =>
          (' ' :: w ++ m.1, m.2)) = (fun a => ' ' :: w ++ a) ∘ Prod.fst := rfl
      rw [hcomp, ← Option.map_map, hrest, List.length_cons]
      by_cases hlt : firstTag U ws < ws.length
      · rw [if_pos hlt, if_pos (Nat.succ_lt_succ hlt), List.take_succ_cons]
        rfl
      · rw [if_neg hlt, if_neg (by omega)]
        rfl

theorem trimEnd_join (hW : ∀ w ∈ W, Words.IsWord isWhitespace w) :
    trimEnd (Words.join ' ' W) = Words.join ' ' W :=
  rdropWhile_of_getLast? fun _ hc => Words.notSep_of_getLast? (by decide) hW hc

theorem trim_join (hW : ∀ w ∈ W, Words.IsWord isWhitespace w) :
    trim (Words.join ' ' W) = Words.join ' ' W := by
  rcases W with _ | ⟨w, ws⟩
  · rfl
  · have hw := hW w List.mem_cons_self
    obtain ⟨c, v, rfl⟩ := List.exists_cons_of_ne_nil hw.ne_nil
    obtain ⟨r, hr⟩ := Words.exists_join_cons ' ' (c :: v) ws
    have hdrop : (Words.join ' ' ((c :: v) :: ws)).dropWhile isWhitespace =
        Words.join ' ' ((c :: v) :: ws) := by
      rw [hr, List.cons_append,
        List.dropWhile_cons_of_neg (by simp [hw.notSep c List.mem_cons_self])]
    rw [trim, trimMatches, hdrop]
    exact trimEnd_join hW

theorem trim_spaced (hW : ∀ w ∈ W, Words.IsWord isWhitespace w) :
    trim (spaced W) = Words.join ' ' W := by
  rcases W with _ | ⟨w, ws⟩
  · rfl
  · have hspace : trim (' ' :: Words.join ' ' (w :: ws)) = trim (Words.join ' ' (w :: ws)) := rfl
    rw [spaced_cons, hspace, trim_join hW]

/-- **`strip_tags` drops the words from the first release tag on.** -/
theorem stripTags_join (hU : U.Lawful) (hW : ∀ w ∈ W, Words.IsWord isWhitespace w) :
    stripTags U (Words.join ' ' W) = Words.join ' ' (W.take (firstTag U W)) := by
  have hfind : (find (noiseRe U) none (' ' :: Words.join ' ' W)).map Prod.fst =
      if firstTag U W < W.length then some (spaced (W.take (firstTag U W))) else none := by
    rcases W with _ | ⟨w, ws⟩
    · have hspace := isSome_noise_space hU none []
      rw [tagAt_nil, Option.isSome_eq_false_iff, Option.isNone_iff_eq_none] at hspace
      show (find (noiseRe U) none [' ']).map Prod.fst = none
      rw [find, hspace, find, noise_inside rfl]
      rfl
    · rw [← spaced_cons, find_spaced hU hW (Or.inr (List.cons_ne_nil w ws))]
  rw [stripTags]
  rcases hm : find (noiseRe U) none (' ' :: Words.join ' ' W) with _ | ⟨before, rest, q⟩
  · rw [hm] at hfind
    have hall : W.length ≤ firstTag U W := by
      by_contra hlt
      rw [if_pos (Nat.lt_of_not_le hlt)] at hfind
      cases hfind
    rw [List.take_of_length_le hall]
    exact trim_join hW
  · rw [hm] at hfind
    have hbefore : before = spaced (W.take (firstTag U W)) :=
      Option.some.inj (Option.ite_none_right_eq_some.mp hfind.symm).2.symm
    show trim before = _
    rw [hbefore, trim_spaced fun w hw => hW w (List.mem_of_mem_take hw)]

end cut

/-! ### Names that end with a year -/

section year

variable {W : List (List Char)} {y : List Char}

/-- There is something before the last word, which is a year. -/
def dated (W : List (List Char)) : Bool := 1 < W.length && W.getLast?.any isYear

/-- The words without a year in the last place. -/
def undated (W : List (List Char)) : List (List Char) := if dated W then W.dropLast else W

/-- **`strip_trailing_year` drops a year in the last place.** -/
theorem stripTrailingYear_join (hW : ∀ w ∈ W, Words.IsWord isWhitespace w) :
    stripTrailingYear (Words.join ' ' W) = Words.join ' ' (undated W) := by
  rcases W.eq_nil_or_concat with rfl | ⟨V, y, rfl⟩
  · rfl
  rw [List.concat_eq_append] at hW ⊢
  have hV : ∀ w ∈ V, Words.IsWord isWhitespace w := fun w hw => hW w (List.mem_append_left _ hw)
  have hy := hW y (List.mem_append_right V (List.mem_singleton_self y))
  have hne : ∀ c ∈ y.reverse, (decide (c ≠ ' ')) = true := by
    intro c hc
    refine decide_eq_true fun hspace => ?_
    have hnot := hy.notSep c (List.mem_reverse.mp hc)
    rw [hspace] at hnot
    cases hnot
  unfold stripTrailingYear
  have hwords : Words.words isWhitespace (Words.join ' ' (V ++ [y])) = V ++ [y] :=
    Words.words_join rfl hW
  simp only [trimEnd_join hW, hwords]
  rw [undated, dated, List.getLast?_concat, Option.any_some, List.dropLast_concat]
  rcases eq_or_ne V [] with rfl | hVne
  · simp
  have hjoin : Words.join ' ' (V ++ [y]) = Words.join ' ' V ++ ' ' :: y := by
    rw [Words.join_append hVne (List.cons_ne_nil y []), Words.join_singleton]
  have hlast : ((Words.join ' ' (V ++ [y])).reverse.takeWhile (· ≠ ' ')).reverse = y := by
    rw [hjoin, List.reverse_append, List.reverse_cons, List.append_assoc,
      List.takeWhile_append_of_pos hne, List.singleton_append,
      List.takeWhile_cons_of_neg (by simp), List.append_nil, List.reverse_reverse]
  have htake : (Words.join ' ' (V ++ [y])).take
      ((Words.join ' ' (V ++ [y])).length - y.length) = Words.join ' ' V ++ [' '] := by
    rw [hjoin, List.append_cons, List.length_append, Nat.add_sub_cancel, List.take_left]
  have htrim : trimEnd (Words.join ' ' V ++ [' ']) = Words.join ' ' V :=
    (List.rdropWhile_concat_pos isWhitespace _ ' ' rfl).trans (trimEnd_join hV)
  rw [hlast, htake, htrim]
  by_cases hyear : 1 < (V ++ [y]).length ∧ isYear y = true
  · rw [if_pos hyear, if_pos (by rwa [Bool.and_eq_true, decide_eq_true_iff])]
  · rw [if_neg hyear, if_neg (by rwa [Bool.and_eq_true, decide_eq_true_iff])]

end year

/-! ### The tables of ASCII -/

section ascii

theorem solid_of_isAlphanum {c : Char} (h : c.isAlphanum = true) : Solid c := by
  have hlt : c.toNat < 128 := by
    delta Char.isAlphanum Char.isAlpha Char.isUpper Char.isLower Char.isDigit at h
    simp only [Bool.or_eq_true, Bool.and_eq_true, decide_eq_true_eq] at h
    have hle : c.toNat ≤ 122 := by
      rcases h with (⟨-, h⟩ | ⟨-, h⟩) | ⟨-, h⟩
      · exact le_trans (show c.toNat ≤ 90 from h) (by decide)
      · exact h
      · exact le_trans (show c.toNat ≤ 57 from h) (by decide)
    omega
  have hall : ∀ n < 128, (Char.ofNat n).isAlphanum = true → isWhitespace (Char.ofNat n) = false ∧
      isSeparator (Char.ofNat n) = false ∧ isBracket (Char.ofNat n) = false := by decide
  have hc := hall c.toNat hlt
  rw [Char.ofNat_toNat] at hc
  exact ⟨(hc h).1, (hc h).2.1, (hc h).2.2⟩

theorem invariant_tagRe : Invariant Char.toLower (tagRe Unicode.ascii) := by
  have hword (w : String) : Invariant Char.toLower (caseless Unicode.ascii w) :=
    invariant_wordBy (Words.toLower_eq Char.toLower (by decide)) w.toList
  have hone (w : String) : Invariant Char.toLower (caselessOne Unicode.ascii w) := fun c =>
    congrArg (fun d => decide (d ∈ w.toList)) (Words.toLower_eq Char.toLower (by decide) c)
  have hdigits : Invariant Char.toLower (digitsUpTo Unicode.ascii 3 4) := by
    have hdigit : ∀ c : Char, c.toLower.isDigit = c.isDigit := Words.toLower_eq Char.isDigit (by decide)
    exact ⟨hdigit, hdigit, hdigit, invariant_upTo hdigit 1, trivial⟩
  have hliteral {d : Char}
      (hd : "ABCDEFGHIJKLMNOPQRSTUVWXYZ".toList.map (fun c => decide (c.toLower = d)) =
        "ABCDEFGHIJKLMNOPQRSTUVWXYZ".toList.map (fun c => decide (c = d))) :
      Invariant Char.toLower (literal [d]) :=
    ⟨Words.toLower_eq (fun c => decide (c = d)) hd, trivial⟩
  have hblank : ∀ c : Char, isWhitespace c.toLower = isWhitespace c :=
    Words.toLower_eq isWhitespace (by decide)
  have htokens : ∀ r ∈ noiseTokens Unicode.ascii, Invariant Char.toLower r := by
    simp (disch := decide) [noiseTokens, seq, opt, Invariant, hword, hone, hdigits, hliteral,
      hblank]
  refine ⟨invariant_oneOf (by simp [noiseTokens]) htokens, ⟨?_, trivial⟩, trivial⟩
  exact Words.toLower_eq (fun c => c.isAlphanum || c = '_') (by decide)

theorem isAlphanum_of_mark {c : Char} (h : Unicode.ascii.mark c = true) : c.isAlphanum = true := by
  rcases Bool.or_eq_true_iff.mp h with h | h
  · exact Bool.or_eq_true_iff.mpr (Or.inr h)
  · exact (Words.isAlphanum_toLower c).symm.trans h

theorem Unicode.ascii_lawful : Unicode.ascii.Lawful where
  lower_space _ _ := List.map_append
  nfd_space _ _ := rfl
  lower_lower text := by
    show (text.map Char.toLower).map Char.toLower = text.map Char.toLower
    rw [List.map_map]
    exact List.map_congr_left fun c _ => Words.toLower_eq Char.toLower (by decide) c
  lower_isWord := fun {w} h => by
    refine ⟨fun hnil => h.ne_nil (List.map_eq_nil_iff.mp hnil), fun c hc => ?_⟩
    obtain ⟨d, hd, rfl⟩ := List.mem_map.mp hc
    rw [Words.toLower_eq isWhitespace (by decide)]
    exact h.notSep d hd
  lower_digits := fun {text} h => by
    have hdigits : ∀ c ∈ text, c.isDigit = true := by
      intro c hc
      rcases h with h | h
      · exact List.all_eq_true.mp h c hc
      · rw [← Words.toLower_eq Char.isDigit (by decide)]
        exact List.all_eq_true.mp h _ (List.mem_map_of_mem hc)
    exact (List.map_congr_left fun c hc => Words.toLower_of_isDigit (hdigits c hc)).trans
      (List.map_id text)
  lower_tag text := isSome_matchAt_map invariant_tagRe (some ' ') text
  letters_append a b := by simp [Unicode.letters, Unicode.folded, Unicode.ascii]
  letters_pos := fun {c} h _ => by
    have hlower : c.toLower.isAlphanum = true := (Words.isAlphanum_toLower c).trans h
    have hne : c.toLower ≠ '&' := by
      intro heq
      rw [heq] at hlower
      exact absurd hlower (by decide)
    simp [Unicode.letters, Unicode.folded, Unicode.ascii, hne, hlower]
  letters_gap := fun {c} h => by
    have hnot : ¬ c.isAlphanum = true := fun halnum => by
      have hsolid := solid_of_isAlphanum halnum
      rw [hsolid.notBlank, hsolid.notSeparator] at h
      rcases h with h | h <;> cases h
    have hlower : c.toLower.isAlphanum = false := by
      rw [Words.isAlphanum_toLower]
      exact Bool.eq_false_iff.mpr hnot
    have hne : c.toLower ≠ '&' := by
      intro heq
      have hc : c = '&' := by
        have hsame := Words.toLower_eq (fun d => decide (d = '&')) (by decide) c
        rw [decide_eq_decide] at hsame
        exact hsame.mp heq
      subst hc
      exact absurd h (by decide)
    simp [Unicode.letters, Unicode.folded, Unicode.ascii, hne, hlower]
  solid h := solid_of_isAlphanum (h.resolve_right Bool.false_ne_true)
  digit_ascii h := h
  mark_alphanumeric h := ⟨isAlphanum_of_mark h, rfl⟩
  mark_word h := Bool.or_eq_true_iff.mpr (Or.inl (isAlphanum_of_mark h))
  word_space := rfl
  word_plus := rfl

end ascii

end EmeraldExchange.MediaCore
