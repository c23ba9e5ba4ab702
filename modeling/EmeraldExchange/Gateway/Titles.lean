import EmeraldExchange.Gateway.Feedback
import EmeraldExchange.Lib.Words

/-!
# Cleaned texts

A title of a client loses its control characters and its runs of blanks, is trimmed, and is cut off
at a number of UTF-16 units. The cut comes last, so that it may leave a blank at the end; a text is
its own cleaning exactly when it has not (`clean_clean_iff`).
-/

namespace EmeraldExchange.Gateway

open Auth Words

/-- Titles and poster paths of a watch list. -/
def maxWatchlistStrLen : ℕ := 512

def spaced (c : Char) : Char := if c.toNat ≤ 0x1f || c.toNat = 0x7f then ' ' else c

/-- **Clean a text**: controls and white space become single blanks, the ends are trimmed, and the
length is capped. -/
def clean (max : ℕ) (raw : List Char) : List Char :=
  let words := ((raw.map spaced).splitOnP jsSpace).filter (· ≠ [])
  jsSlice max (List.intercalate [' '] words)

def cleanStr (max : ℕ) (raw : String) : String := String.ofList (clean max raw.toList)

/-- A text has not been cut off after a blank. -/
def Tidy (s : String) : Prop := s.toList.getLast? ≠ some ' '

instance (s : String) : Decidable (Tidy s) := inferInstanceAs (Decidable (_ ≠ _))

theorem sanitizeTitle_eq (raw : String) : sanitizeTitle raw = cleanStr maxTitleLen raw := rfl

/-! ### The cut -/

/-- `c.len_utf16()` -/
def lenUtf16 (c : Char) : ℕ := if c.toNat ≤ 0xffff then 1 else 2

def units (cs : List Char) : ℕ := (cs.map lenUtf16).sum

theorem units_cons (c : Char) (cs : List Char) : units (c :: cs) = lenUtf16 c + units cs := by
  rw [units, List.map_cons, List.sum_cons]
  rfl

theorem jsSlice_cons (n : ℕ) (c : Char) (cs : List Char) : jsSlice n (c :: cs) =
    if n < lenUtf16 c then [] else c :: jsSlice (n - lenUtf16 c) cs := rfl

theorem jsSlice_prefix (n : ℕ) (cs : List Char) : jsSlice n cs <+: cs := by
  induction cs generalizing n with
  | nil => exact List.prefix_rfl
  | cons c cs ih =>
    rw [jsSlice_cons]
    split
    · exact List.nil_prefix
    · exact List.prefix_cons_inj c |>.mpr (ih _)

theorem units_jsSlice_le (n : ℕ) (cs : List Char) : units (jsSlice n cs) ≤ n := by
  induction cs generalizing n with
  | nil => exact Nat.zero_le n
  | cons c cs ih =>
    rw [jsSlice_cons]
    split
    · exact Nat.zero_le n
    · next hroom =>
      rw [units_cons]
      have h := ih (n - lenUtf16 c)
      omega

theorem jsSlice_of_units_le {n : ℕ} {cs : List Char} (h : units cs ≤ n) : jsSlice n cs = cs := by
  induction cs generalizing n with
  | nil => rfl
  | cons c cs ih =>
    rw [units_cons] at h
    rw [jsSlice_cons]
    rw [if_neg (by omega), ih (by omega)]

theorem jsSlice_append {n : ℕ} {cs ds : List Char} (h : units cs ≤ n) :
    jsSlice n (cs ++ ds) = cs ++ jsSlice (n - units cs) ds := by
  induction cs generalizing n with
  | nil => rfl
  | cons c cs ih =>
    rw [units_cons] at h ⊢
    rw [List.cons_append, jsSlice_cons, if_neg (by omega), ih (by omega), List.cons_append,
      Nat.sub_add_eq]

theorem units_append_le (cs ds : List Char) : units cs ≤ units (cs ++ ds) := by
  rw [units, units, List.map_append, List.sum_append]
  exact Nat.le_add_right _ _

/-! ### The fixed points -/

theorem jsSpace_blank : jsSpace ' ' = true := by decide

theorem spaced_spaced (c : Char) : spaced (spaced c) = spaced c := by
  rw [spaced]
  split
  · next h =>
    rw [spaced] at h ⊢
    split
    · rfl
    · next hc =>
      rw [if_neg hc] at h
      exact absurd h hc
  · rfl

theorem clean_eq (max : ℕ) (raw : List Char) :
    clean max raw = jsSlice max (join ' ' (words jsSpace (raw.map spaced))) := by
  have hfilter : ((raw.map spaced).splitOnP jsSpace).filter (· ≠ []) =
      words jsSpace (raw.map spaced) := by
    refine List.filter_congr fun w _ => ?_
    rcases w with _ | ⟨c, w⟩
    · rfl
    · rfl
  rw [← hfilter]
  rfl

theorem cleanStr_empty (max : ℕ) : cleanStr max "" = "" := by
  rw [cleanStr, clean_eq]
  simp [words_nil, join_nil, jsSlice]

theorem spaced_clean (max : ℕ) (raw : List Char) :
    (clean max raw).map spaced = clean max raw := by
  refine (List.map_congr_left fun c hc => ?_).trans (List.map_id _)
  rw [clean_eq] at hc
  rcases mem_join (( jsSlice_prefix max _).subset hc) with rfl | ⟨w, hw, hcw⟩
  · decide
  · obtain ⟨d, -, rfl⟩ := List.mem_map.mp (mem_of_mem_words hw hcw)
    exact spaced_spaced d

theorem clean_cases (max : ℕ) (raw : List Char) : ∃ vs, (∀ v ∈ vs, IsWord jsSpace v) ∧
    clean max (clean max raw) = join ' ' vs ∧
    (clean max raw = join ' ' vs ∨ (vs ≠ [] ∧ clean max raw = join ' ' vs ++ [' '])) := by
  have hunits : units (clean max raw) ≤ max := units_jsSlice_le max _
  have hprefix : clean max raw <+: join ' ' (words jsSpace (raw.map spaced)) := by
    rw [clean_eq]
    exact jsSlice_prefix max _
  obtain ⟨vs, hvs, hcut⟩ := prefix_join (fun w hw => isWord_of_mem_words hw) hprefix
  refine ⟨vs, hvs, ?_, hcut⟩
  rw [clean_eq max (clean max raw), spaced_clean]
  rcases hcut with hcut | ⟨-, hcut⟩
  · rw [hcut, words_join jsSpace_blank hvs, jsSlice_of_units_le (hcut ▸ hunits)]
  · have hshort : units (join ' ' vs) ≤ max := (units_append_le _ [' ']).trans (hcut ▸ hunits)
    rw [hcut, words_join_sep jsSpace_blank hvs, jsSlice_of_units_le hshort]

/-- **A cleaned text is its own cleaning exactly when it does not end with a blank.** -/
theorem clean_clean_iff (max : ℕ) (raw : List Char) :
    clean max (clean max raw) = clean max raw ↔ (clean max raw).getLast? ≠ some ' ' := by
  obtain ⟨vs, hvs, hclean, hcut⟩ := clean_cases max raw
  rw [hclean]
  rcases hcut with hcut | ⟨-, hcut⟩
  · rw [hcut]
    exact iff_of_true rfl (getLast?_join jsSpace_blank hvs)
  · rw [hcut]
    refine iff_of_false (fun h => ?_) (not_not_intro (by simp))
    simpa using congrArg List.length h

theorem clean_clean_ne_nil {max : ℕ} {raw : List Char} (h : clean max raw ≠ []) :
    clean max (clean max raw) ≠ [] := by
  obtain ⟨vs, hvs, hclean, hcut⟩ := clean_cases max raw
  rw [hclean]
  rcases hcut with hcut | ⟨hne, -⟩
  · exact hcut ▸ h
  · exact join_ne_nil hvs hne

theorem toList_cleanStr (max : ℕ) (raw : String) :
    (cleanStr max raw).toList = clean max raw.toList := String.toList_ofList

theorem cleanStr_cleanStr_iff (max : ℕ) (raw : String) :
    cleanStr max (cleanStr max raw) = cleanStr max raw ↔ Tidy (cleanStr max raw) := by
  rw [Tidy, toList_cleanStr, ← clean_clean_iff, cleanStr, toList_cleanStr, cleanStr]
  exact ⟨fun h => by simpa using congrArg String.toList h, congrArg String.ofList⟩

theorem cleanStr_cleanStr_ne {max : ℕ} {raw : String} (h : cleanStr max raw ≠ "") :
    cleanStr max (cleanStr max raw) ≠ "" := by
  have hne : ∀ cs : List Char, String.ofList cs ≠ "" ↔ cs ≠ [] := by
    intro cs
    rcases cs with _ | ⟨c, cs⟩
    · exact iff_of_false (not_not_intro rfl) (not_not_intro rfl)
    · exact iff_of_true (by simp) (List.cons_ne_nil c cs)
  rw [cleanStr, toList_cleanStr, hne]
  exact clean_clean_ne_nil ((hne _).mp h)

end EmeraldExchange.Gateway
