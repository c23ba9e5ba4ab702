import Mathlib.Data.List.Basic

/-!
# Words and separators

A text is cut into words at the characters that pass a test, and words are put together again with
one separator between them. Words that are put together are found again, and what is cut off from
them at the end leaves words that are put together too, or such words with a separator after them
(`prefix_join`). So whether a text that was cut off is found again is a
question of its last character.

Besides, the lower case of a text, as far as letters and digits of ASCII come of it, and its cut at
the first occurrence of a mark.
-/

namespace EmeraldExchange.Words

variable {α : Type*} (p : α → Bool)

/-- `to_lowercase` of a character. Those of other scripts are left alone: what becomes of them is
dropped where it is used. -/
def lowerChar (c : Char) : List Char :=
  if c = '\u0130' then ['i', '\u0307'] else if c = '\u212a' then ['k'] else [c.toLower]

def toLowercase (cs : List Char) : List Char := cs.flatMap lowerChar

/-- What stands before the first occurrence of a mark, and what after it. -/
def splitOnce [DecidableEq α] (mark : List α) : List α → Option (List α × List α)
  | [] => if mark = [] then some ([], []) else none
  | a :: l =>
    if mark.isPrefixOf (a :: l) then some ([], (a :: l).drop mark.length)
    else (splitOnce mark l).map fun r => (a :: r.1, r.2)

def words (l : List α) : List (List α) := (l.splitOnP p).filter fun w => !w.isEmpty

def join (sep : α) (ws : List (List α)) : List α := [sep].intercalate ws

/-- A word has characters, none of which separates. -/
structure IsWord (w : List α) : Prop where
  ne_nil : w ≠ []
  notSep : ∀ c ∈ w, p c = false

variable {p} {sep : α}

theorem words_append_sep {c : α} (hc : p c = true) (a b : List α) :
    words p (a ++ c :: b) = words p a ++ words p b := by
  rw [words, List.splitOnP_append_cons a b hc, List.filter_append]
  rfl

theorem words_nil : words p ([] : List α) = [] := by
  rw [words, List.splitOnP_nil]
  rfl

theorem words_of_isWord {w : List α} (h : IsWord p w) : words p w = [w] := by
  rw [words, List.splitOnP_eq_singleton h.notSep, List.filter_cons_of_pos, List.filter_nil]
  simpa using h.ne_nil

theorem mem_piece : ∀ {l w : List α}, w ∈ l.splitOnP p → ∀ c ∈ w, p c = false ∧ c ∈ l
  | [], w, hw => by
    rw [List.splitOnP_nil, List.mem_singleton] at hw
    subst hw
    rintro c ⟨⟩
  | a :: l, w, hw => by
    rw [List.splitOnP_cons_eq_if_modifyHead] at hw
    obtain ⟨h, t, hsplit⟩ := List.exists_cons_of_ne_nil (List.splitOnP_ne_nil p l)
    have ih : ∀ v ∈ h :: t, ∀ c ∈ v, p c = false ∧ c ∈ a :: l := fun v hv c hc =>
      (mem_piece (hsplit ▸ hv) c hc).imp_right (List.mem_cons_of_mem a)
    rw [hsplit] at hw
    split at hw
    · rcases List.mem_cons.mp hw with rfl | hw
      · rintro c ⟨⟩
      · exact ih w hw
    · next ha =>
      rw [List.modifyHead_cons] at hw
      rcases List.mem_cons.mp hw with rfl | hw
      · exact List.forall_mem_cons.mpr
          ⟨⟨by simpa using ha, List.mem_cons_self⟩, ih h List.mem_cons_self⟩
      · exact ih w (List.mem_cons_of_mem h hw)

theorem notMem_of_mem_splitOn [BEq α] [LawfulBEq α] {a : α} {l w : List α}
    (h : w ∈ l.splitOn a) : a ∉ w := by
  rw [List.splitOn_eq_splitOnP] at h
  intro hmem
  have hne := (mem_piece h a hmem).1
  rw [beq_self_eq_true] at hne
  cases hne

theorem isWord_of_mem_words {l w : List α} (h : w ∈ words p l) : IsWord p w := by
  obtain ⟨hmem, hne⟩ := List.mem_filter.mp h
  exact ⟨by simpa using hne, fun c hc => (mem_piece hmem c hc).1⟩

theorem mem_of_mem_words {l w : List α} (h : w ∈ words p l) {c : α} (hc : c ∈ w) : c ∈ l :=
  (mem_piece (List.mem_filter.mp h).1 c hc).2

theorem join_nil : join sep [] = [] := rfl

theorem join_singleton (w : List α) : join sep [w] = w := by
  simp [join]

theorem join_cons_cons (w v : List α) (ws : List (List α)) :
    join sep (w :: v :: ws) = w ++ sep :: join sep (v :: ws) := by
  simp [join, List.intercalate_cons_cons]

theorem mem_join {c : α} : ∀ {ws : List (List α)}, c ∈ join sep ws → c = sep ∨ ∃ w ∈ ws, c ∈ w
  | [], h => by cases h
  | [w], h => by
    rw [join_singleton] at h
    exact Or.inr ⟨w, List.mem_cons_self, h⟩
  | w :: v :: ws, h => by
    rw [join_cons_cons, List.mem_append, List.mem_cons] at h
    rcases h with h | rfl | h
    · exact Or.inr ⟨w, List.mem_cons_self, h⟩
    · exact Or.inl rfl
    · exact (mem_join h).imp_right fun ⟨x, hx, hc⟩ => ⟨x, List.mem_cons_of_mem w hx, hc⟩

theorem join_ne_nil : ∀ {ws : List (List α)}, (∀ w ∈ ws, IsWord p w) → ws ≠ [] → join sep ws ≠ []
  | [], _, hne => absurd rfl hne
  | [w], h, _ => by
    rw [join_singleton]
    exact (h w List.mem_cons_self).ne_nil
  | w :: v :: ws, _, _ => by
    rw [join_cons_cons]
    simp

theorem getLast?_join (hsep : p sep = true) : ∀ {ws : List (List α)}, (∀ w ∈ ws, IsWord p w) →
    (join sep ws).getLast? ≠ some sep
  | [], _ => by simp [join_nil]
  | [w], h => by
    rw [join_singleton]
    intro hlast
    have hnot := (h w List.mem_cons_self).notSep sep (List.mem_of_getLast? hlast)
    rw [hsep] at hnot
    cases hnot
  | w :: v :: ws, h => by
    have hws : ∀ x ∈ v :: ws, IsWord p x := fun x hx => h x (List.mem_cons_of_mem w hx)
    have hrest := getLast?_join hsep hws
    have hne : join sep (v :: ws) ≠ [] := join_ne_nil hws (List.cons_ne_nil v ws)
    rw [join_cons_cons, List.getLast?_append_of_ne_nil _ (List.cons_ne_nil _ _),
      List.getLast?_cons_of_ne_nil hne]
    exact hrest

theorem notSep_of_getLast? (hsep : p sep = true) {ws : List (List α)} {c : α}
    (h : ∀ w ∈ ws, IsWord p w) (hc : (join sep ws).getLast? = some c) : p c = false := by
  rcases mem_join (List.mem_of_getLast? hc) with rfl | ⟨w, hw, hcw⟩
  · exact absurd hc (getLast?_join hsep h)
  · exact (h w hw).notSep c hcw

/-- **Words that are put together are found again.** -/
theorem words_join (hsep : p sep = true) : ∀ {ws : List (List α)}, (∀ w ∈ ws, IsWord p w) →
    words p (join sep ws) = ws
  | [], _ => words_nil
  | [w], h => by rw [join_singleton, words_of_isWord (h w List.mem_cons_self)]
  | w :: v :: ws, h => by
    rw [join_cons_cons, words_append_sep hsep, words_of_isWord (h w List.mem_cons_self),
      words_join hsep fun x hx => h x (List.mem_cons_of_mem w hx)]
    rfl

theorem flatten_words : ∀ l : List α, (words p l).flatten = l.filter fun c => !p c
  | [] => by rw [words_nil, List.flatten_nil, List.filter_nil]
  | a :: l => by
    have hrec := flatten_words l
    rw [words, List.flatten_filter_not_isEmpty] at hrec ⊢
    rw [List.splitOnP_cons_eq_if_modifyHead]
    obtain ⟨h, t, hsplit⟩ := List.exists_cons_of_ne_nil (List.splitOnP_ne_nil p l)
    rw [hsplit] at hrec ⊢
    by_cases ha : p a = true
    · simp [ha, ← hrec]
    · simp [ha, ← hrec]

theorem words_cons_of_head {a b : α} {l : List α} (ha : p a = false) (hb : p b = false) :
    words p (a :: b :: l) = (words p (b :: l)).modifyHead (a :: ·) := by
  obtain ⟨h, t, hsplit⟩ := List.exists_cons_of_ne_nil (List.splitOnP_ne_nil p l)
  rw [words, words, List.splitOnP_cons_eq_if_modifyHead, List.splitOnP_cons_eq_if_modifyHead,
    hsplit, if_neg (by simp [ha]), if_neg (by simp [hb])]
  simp

theorem join_append : ∀ {ws vs : List (List α)}, ws ≠ [] → vs ≠ [] →
    join sep (ws ++ vs) = join sep ws ++ sep :: join sep vs
  | [], _, h, _ => absurd rfl h
  | [w], [], _, h => absurd rfl h
  | [w], v :: vs, _, _ => by
    rw [List.singleton_append, join_cons_cons, join_singleton]
  | w :: x :: ws, vs, _, h => by
    rw [List.cons_append, List.cons_append, join_cons_cons, ← List.cons_append,
      join_append (List.cons_ne_nil x ws) h, join_cons_cons, List.append_assoc, List.cons_append]

theorem words_append_seps (a : List α) : ∀ {s : List α}, s ≠ [] → (∀ c ∈ s, p c = true) →
    ∀ b, words p (a ++ (s ++ b)) = words p a ++ words p b
  | [], h, _, _ => absurd rfl h
  | [c], _, hs, b => words_append_sep (hs c List.mem_cons_self) a b
  | c :: d :: s, _, hs, b => by
    have hrest := words_append_seps [] (List.cons_ne_nil d s)
      (fun x hx => hs x (List.mem_cons_of_mem c hx)) b
    rw [List.nil_append, words_nil, List.nil_append] at hrest
    rw [List.cons_append, words_append_sep (hs c List.mem_cons_self), hrest]

theorem words_append_of_isWord : ∀ {a : List α}, IsWord p a → ∀ l,
    ∃ v vs, words p (a ++ l) = (a ++ v) :: vs
  | [], h, _ => absurd rfl h.ne_nil
  | [c], h, l => by
    obtain ⟨x, t, hsplit⟩ := List.exists_cons_of_ne_nil (List.splitOnP_ne_nil p l)
    refine ⟨x, t.filter fun w => !w.isEmpty, ?_⟩
    rw [words, List.singleton_append, List.splitOnP_cons_eq_if_modifyHead, hsplit,
      if_neg (by simp [h.notSep c List.mem_cons_self])]
    simp
  | c :: d :: a, h, l => by
    have htail : IsWord p (d :: a) :=
      ⟨List.cons_ne_nil d a, fun x hx => h.notSep x (List.mem_cons_of_mem c hx)⟩
    obtain ⟨v, vs, hwords⟩ := words_append_of_isWord htail l
    refine ⟨v, vs, ?_⟩
    rw [List.cons_append, List.cons_append,
      words_cons_of_head (h.notSep c List.mem_cons_self) (htail.notSep d List.mem_cons_self),
      ← List.cons_append, hwords]
    rfl

theorem exists_join_cons (sep : α) (w : List α) : ∀ ws : List (List α), ∃ r, join sep (w :: ws) = w ++ r
  | [] => ⟨[], by rw [join_singleton, List.append_nil]⟩
  | v :: ws => ⟨sep :: join sep (v :: ws), join_cons_cons w v ws⟩

theorem words_join_sep (hsep : p sep = true) {ws : List (List α)} (h : ∀ w ∈ ws, IsWord p w) :
    words p (join sep ws ++ [sep]) = ws := by
  rw [words_append_sep hsep, words_nil, words_join hsep h, List.append_nil]

variable (sep) in
theorem prefix_word {w l : List α} (hw : IsWord p w) (h : l <+: w) :
    ∃ vs, (∀ v ∈ vs, IsWord p v) ∧ l = join sep vs := by
  rcases eq_or_ne l [] with rfl | hne
  · exact ⟨[], List.forall_mem_nil _, rfl⟩
  · refine ⟨[l], ?_, (join_singleton l).symm⟩
    rw [List.forall_mem_singleton]
    exact ⟨hne, fun c hc => hw.notSep c (h.subset hc)⟩

/-- **What is left of words that are cut off** are words, or words and a separator. -/
theorem prefix_join : ∀ {ws : List (List α)} {l : List α}, (∀ w ∈ ws, IsWord p w) →
    l <+: join sep ws →
    ∃ vs, (∀ v ∈ vs, IsWord p v) ∧ (l = join sep vs ∨ (vs ≠ [] ∧ l = join sep vs ++ [sep]))
  | [], l, _, h => ⟨[], List.forall_mem_nil _, Or.inl (List.prefix_nil.mp h)⟩
  | [w], l, hws, h => by
    rw [join_singleton] at h
    obtain ⟨vs, hvs, hl⟩ := prefix_word sep (hws w List.mem_cons_self) h
    exact ⟨vs, hvs, Or.inl hl⟩
  | w :: v :: ws, l, hws, h => by
    rw [join_cons_cons] at h
    have hw := hws w List.mem_cons_self
    rcases List.prefix_or_prefix_of_prefix h (List.prefix_append w _) with hl | ⟨r, rfl⟩
    · obtain ⟨vs, hvs, hl⟩ := prefix_word sep hw hl
      exact ⟨vs, hvs, Or.inl hl⟩
    · -- the first word is whole
      have hone : ∀ x ∈ [w], IsWord p x := List.forall_mem_singleton.mpr hw
      rcases List.prefix_cons_iff.mp ((List.prefix_append_right_inj w).mp h) with
        rfl | ⟨t, rfl, ht⟩
      · exact ⟨[w], hone, Or.inl (by rw [join_singleton, List.append_nil])⟩
      · obtain ⟨vs, hvs, hl⟩ := prefix_join
          (fun x hx => hws x (List.mem_cons_of_mem w hx)) ht
        rcases vs with _ | ⟨v', vs⟩
        · rcases hl with rfl | ⟨hne, -⟩
          · refine ⟨[w], hone, Or.inr ⟨List.cons_ne_nil w [], ?_⟩⟩
            rw [join_singleton]
            rfl
          · exact absurd rfl hne
        · refine ⟨w :: v' :: vs, List.forall_mem_cons.mpr ⟨hw, hvs⟩, ?_⟩
          rw [join_cons_cons]
          rcases hl with rfl | ⟨-, rfl⟩
          · exact Or.inl rfl
          · exact Or.inr ⟨List.cons_ne_nil w _, by simp⟩

/-- **What is left of words at their end, and ends with no separator, are words.** -/
theorem join_words_of_prefix {ws : List (List α)} {l : List α} (hsep : p sep = true)
    (hws : ∀ w ∈ ws, IsWord p w) (hl : l <+: join sep ws) (hlast : l.getLast? ≠ some sep) :
    join sep (words p l) = l := by
  obtain ⟨vs, hvs, rfl | ⟨-, rfl⟩⟩ := prefix_join hws hl
  · rw [words_join hsep hvs]
  · exact absurd (List.getLast?_concat ..) hlast

/-! ### The lower case of ASCII -/

theorem toLower_self_or (c : Char) :
    c.toLower = c ∨ c ∈ "ABCDEFGHIJKLMNOPQRSTUVWXYZ".toList := by
  by_cases h : c.val ≥ 'A'.val ∧ c.val ≤ 'Z'.val
  · refine Or.inr ?_
    have hall : ∀ n < 26, Char.ofNat (65 + n) ∈ "ABCDEFGHIJKLMNOPQRSTUVWXYZ".toList := by decide
    have hlow : 65 ≤ c.toNat := h.1
    have hhigh : c.toNat ≤ 90 := h.2
    have hc := hall (c.toNat - 65) (by omega)
    rwa [Nat.add_sub_cancel' hlow, Char.ofNat_toNat] at hc
  · exact Or.inl (dif_neg h)

/-- **What does not tell a letter from its lower case.** -/
theorem toLower_eq {β : Type*} (f : Char → β)
    (h : "ABCDEFGHIJKLMNOPQRSTUVWXYZ".toList.map (fun c => f c.toLower) =
      "ABCDEFGHIJKLMNOPQRSTUVWXYZ".toList.map f) (c : Char) :
    f c.toLower = f c := by
  rcases toLower_self_or c with hc | hc
  · rw [hc]
  · exact List.map_inj_left.mp h c hc

theorem isAlphanum_toLower (c : Char) : c.toLower.isAlphanum = c.isAlphanum :=
  toLower_eq Char.isAlphanum (by decide) c

theorem toLower_of_isDigit {c : Char} (h : c.isDigit = true) : c.toLower = c := by
  rcases toLower_self_or c with hc | hc
  · exact hc
  · have hall : "ABCDEFGHIJKLMNOPQRSTUVWXYZ".toList.all (fun d => !d.isDigit) = true := by
      decide
    have hc := List.all_eq_true.mp hall c hc
    rw [h] at hc
    cases hc

end EmeraldExchange.Words
