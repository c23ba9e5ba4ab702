import EmeraldExchange.Gateway.Titles
import Mathlib.Data.Finset.Dedup
import Mathlib.Data.Finset.Empty

/-!
# When two titles are one

Services spell a title in different ways, so titles are compared without case, punctuation and a
leading article. A set of titles may have, besides each of them, what stands before its subtitle;
a pick is in a set when the whole of it is, or what stands before its own subtitle. What the latter
finds in a set the former finds in it too, and a set with subtitles cut off finds more
(`titleSet_subset`).
-/

namespace EmeraldExchange.Gateway

open Auth Words

/-- What follows an article, if there is a blank between. -/
def afterArticle (cs : List Char) (article : String) : Option (List Char) := do
  let rest ← article.toList.isPrefixOf? cs
  if rest.head?.any jsSpace then some (rest.dropWhile jsSpace) else none

def articles : List String := ["the", "a", "an"]

/-- **A title for comparison**: lower case, no leading article, and only letters and digits. -/
def normalizeTitle (t : String) : String :=
  let lower := toLowercase t.toList
  let rest := (articles.findSome? (afterArticle lower)).getD lower
  String.ofList (rest.filter fun c => c.isLower || c.isDigit)

/-- A colon, a long dash, or a dash between blanks. -/
def isSubtitleMark : List Char → Bool
  | c :: '-' :: d :: _ => c = ':' || c = '\u2014' || c = '\u2013' || (jsSpace c && jsSpace d)
  | c :: _ => c = ':' || c = '\u2014' || c = '\u2013'
  | [] => false

/-- What stands before the first mark of a subtitle. -/
def beforeSubtitle : List Char → Option (List Char)
  | [] => none
  | c :: cs => if isSubtitleMark (c :: cs) then some [] else (beforeSubtitle cs).map (c :: ·)

/-- **A title without its subtitle**, or nothing where there is none or where too little is left. -/
def normalizeTitleBase (t : String) : String :=
  match beforeSubtitle t.toList with
  | none => ""
  | some base =>
    let normalized := normalizeTitle (String.ofList base)
    if base = [] ∨ normalized.length < 5 then "" else normalized

/-- A set of titles, with the titles without their subtitles if `includeBase`. -/
def titleSet (titles : List String) (includeBase : Bool) : Finset String :=
  ((titles.filter fun t => t ≠ "").flatMap fun t =>
    if includeBase ∧ normalizeTitleBase t ≠ "" then [normalizeTitle t, normalizeTitleBase t]
    else [normalizeTitle t]).toFinset

/-- **A title is in a set**, with its subtitle or without. -/
def titleMatches (pick : String) (set : Finset String) : Bool :=
  if set = ∅ then false
  else if normalizeTitle pick ∈ set then true
  else normalizeTitleBase pick ≠ "" && normalizeTitleBase pick ∈ set

theorem titleSet_subset (titles : List String) : titleSet titles false ⊆ titleSet titles true := by
  intro x hx
  simp only [titleSet, List.mem_toFinset, List.mem_flatMap] at hx ⊢
  obtain ⟨t, ht, hx⟩ := hx
  refine ⟨t, ht, ?_⟩
  rw [if_neg (by simp)] at hx
  split
  · exact List.mem_cons.mpr (.inl (List.mem_singleton.mp hx))
  · exact hx

theorem not_mem_of_titleMatches {pick : String} {set : Finset String}
    (h : titleMatches pick set = false) : normalizeTitle pick ∉ set := by
  intro hmem
  rw [titleMatches, if_neg (Finset.ne_empty_of_mem hmem), if_pos hmem] at h
  cases h

end EmeraldExchange.Gateway
