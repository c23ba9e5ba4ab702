import EmeraldExchange.Auth.Session
import EmeraldExchange.Lib.AttributeList
import Mathlib.Data.List.Perm.Subperm

/-!
# Audio renditions and their names

The audio tracks of a session that are offered besides its main one make a group, in which every
rendition has a name of its own: a name that is taken gets the first number that makes it another
one. The numbered name may be taken too, by a name that was like this before, which is why the
numbers are tried one by one. There are no more names in use than renditions before, so that the
search ends within as many steps (`exists_freeName`).
-/

namespace EmeraldExchange.Transcoder.Renditions

open Auth (trimMatches whiteSpace)

/-! ### What the code does -/

/-- A track of a file, as far as its names are read. -/
structure AudioTrack where
  language : Option (List Char)
  title : Option (List Char)
  deriving DecidableEq

/-- **An alternate-audio rendition.** -/
structure AudioRendition where
  name : List Char
  language : Option (List Char)
  isDefault : Bool
  uri : Option (List Char)
  deriving DecidableEq

/-- `audio_{n}.m3u8` -/
def audioPlaylistName (audioIndex : ℕ) : List Char :=
  "audio_".toList ++ Decimal.text audioIndex ++ ".m3u8".toList

def nonBlank (s : List Char) : Bool := trimMatches whiteSpace s ≠ []

/-- **`rendition_from`** -/
def renditionFrom (track : Option AudioTrack) (position : ℕ) (isDefault : Bool)
    (uriIndex : Option ℕ) : AudioRendition :=
  let language := (track.bind AudioTrack.language).filter nonBlank
  { name := (language.or ((track.bind AudioTrack.title).filter nonBlank)).getD
      ("Audio ".toList ++ Decimal.text (position + 1))
    language
    isDefault
    uri := uriIndex.map audioPlaylistName }

def candidate (base : List Char) (n : ℕ) : List Char :=
  base ++ " (".toList ++ Decimal.text n ++ ")".toList

/-- The first numbered name from `n` on that is free, if it is found within some steps. -/
def freeName (seen : List (List Char)) (base : List Char) : ℕ → ℕ → Option (List Char)
  | 0, _ => none
  | steps + 1, n =>
    if seen.contains (candidate base n) then freeName seen base steps (n + 1)
    else some (candidate base n)

/-- **`dedupe_rendition_names`**, after the names `seen`; a search takes at most `steps` steps. -/
def dedupeFrom (steps : ℕ) (seen : List (List Char)) :
    List AudioRendition → Option (List AudioRendition)
  | [] => some []
  | r :: rs =>
    if seen.contains r.name then
      (freeName seen r.name steps 2).bind fun unique =>
        (dedupeFrom steps (seen ++ [unique]) rs).map ({ r with name := unique } :: ·)
    else (dedupeFrom steps (seen ++ [r.name]) rs).map (r :: ·)

@[inherit_doc dedupeFrom]
def dedupeRenditionNames (steps : ℕ) (renditions : List AudioRendition) :
    Option (List AudioRendition) := dedupeFrom steps [] renditions

/-! ### What is asked for -/

/-- **A name among those before it**: as it was if it is free, and otherwise with the first number
from two on that makes it free. -/
structure NamedAfter (earlier : List (List Char)) (name out : List Char) : Prop where
  unchanged : name ∉ earlier → out = name
  numbered : name ∈ earlier → ∃ n, 2 ≤ n ∧ n ≤ earlier.length + 1 ∧ out = candidate name n ∧
    candidate name n ∉ earlier ∧ ∀ m, 2 ≤ m → m < n → candidate name m ∈ earlier

/-- **Names made distinct**, each after those before it. -/
structure Deduped (names out : List (List Char)) : Prop where
  length_eq : out.length = names.length
  nodup : out.Nodup
  named : ∀ i name made, names[i]? = some name → out[i]? = some made →
    NamedAfter (out.take i) name made

/-! ### The search for a free name -/

section search

variable {seen : List (List Char)} {base out : List Char} {steps n : ℕ}

theorem candidate_injective (base : List Char) : Function.Injective (candidate base) := by
  intro m n h
  have htext : Decimal.text m = Decimal.text n := by
    simpa [candidate] using h
  have hm : Nat.ofDigitChars 10 (Decimal.text m) 0 = m := Nat.ofDigitChars_ten_toDigits
  rw [← hm, htext]
  exact Nat.ofDigitChars_ten_toDigits

theorem candidate_ne (base : List Char) (n : ℕ) : candidate base n ≠ base := by
  intro h
  have hlen := congrArg List.length h
  simp [candidate] at hlen

/-- **What the search finds.** -/
theorem freeName_eq_some (h : freeName seen base steps n = some out) :
    ∃ m, n ≤ m ∧ out = candidate base m ∧ candidate base m ∉ seen ∧
      ∀ k, n ≤ k → k < m → candidate base k ∈ seen := by
  induction steps generalizing n with
  | zero => cases h
  | succ steps ih =>
    rw [freeName] at h
    split at h
    · next hn =>
      obtain ⟨m, hm, hout, hfree, htaken⟩ := ih h
      refine ⟨m, by omega, hout, hfree, fun k hk hkm => ?_⟩
      rcases Nat.eq_or_lt_of_le hk with rfl | hk
      · exact List.contains_iff_mem.mp hn
      · exact htaken k hk hkm
    · next hn =>
      exact ⟨n, le_refl n, (Option.some.inj h).symm,
        fun hmem => hn (List.contains_iff_mem.mpr hmem), fun k hk hkm => by omega⟩

theorem freeName_eq_none (h : freeName seen base steps n = none) :
    ∀ k, n ≤ k → k < n + steps → candidate base k ∈ seen := by
  induction steps generalizing n with
  | zero => exact fun k hk hkn => by omega
  | succ steps ih =>
    rw [freeName] at h
    split at h
    · next hn =>
      intro k hk hkn
      rcases Nat.eq_or_lt_of_le hk with rfl | hk
      · exact List.contains_iff_mem.mp hn
      · exact ih h k hk (by omega)
    · cases h

theorem length_of_taken (hbase : base ∈ seen)
    (h : ∀ k, n ≤ k → k < n + steps → candidate base k ∈ seen) : steps + 1 ≤ seen.length := by
  have hnodup : (base :: (List.range' n steps).map (candidate base)).Nodup := by
    refine List.nodup_cons.mpr ⟨fun hmem => ?_, ?_⟩
    · obtain ⟨k, -, hk⟩ := List.mem_map.mp hmem
      exact candidate_ne base k hk
    · exact (List.nodup_range' 1).map (candidate_injective base)
  have hsub : base :: (List.range' n steps).map (candidate base) ⊆ seen := by
    intro x hx
    rcases List.mem_cons.mp hx with rfl | hx
    · exact hbase
    · obtain ⟨k, hk, rfl⟩ := List.mem_map.mp hx
      obtain ⟨hn, hlt⟩ := List.mem_range'_1.mp hk
      exact h k hn hlt
  have hle := (hnodup.subperm hsub).length_le
  simpa using hle

/-- **The search ends** within as many steps as there are names in use. -/
theorem exists_freeName (hbase : base ∈ seen) (hsteps : seen.length ≤ steps) :
    ∃ out, freeName seen base steps 2 = some out := by
  rcases hfound : freeName seen base steps 2 with _ | out
  · have hlen := length_of_taken hbase (freeName_eq_none hfound)
    omega
  · exact ⟨out, rfl⟩

end search

/-! ### The names of a group -/

/-- The names of a list follow the names `seen` before it. -/
structure DedupedAfter (seen names out : List (List Char)) : Prop where
  length_eq : out.length = names.length
  nodup : (seen ++ out).Nodup
  named : ∀ i name made, names[i]? = some name → out[i]? = some made →
    NamedAfter (seen ++ out.take i) name made

theorem dedupedAfter_nil {seen : List (List Char)} (h : seen.Nodup) : DedupedAfter seen [] [] where
  length_eq := rfl
  nodup := by simpa using h
  named := fun i name made h _ => by simp at h

theorem DedupedAfter.cons {seen names out : List (List Char)} {name made : List Char}
    (h : DedupedAfter (seen ++ [made]) names out) (hname : NamedAfter seen name made) :
    DedupedAfter seen (name :: names) (made :: out) where
  length_eq := by simpa using h.length_eq
  nodup := by simpa using h.nodup
  named := by
    rintro (_ | i) name' made' hi ho
    · obtain rfl : name = name' := by simpa using hi
      obtain rfl : made = made' := by simpa using ho
      simpa using hname
    · have htail := h.named i name' made' (by simpa using hi) (by simpa using ho)
      simpa using htail

theorem DedupedAfter.deduped {names out : List (List Char)} (h : DedupedAfter [] names out) :
    Deduped names out where
  length_eq := h.length_eq
  nodup := h.nodup
  named := fun i name made hi ho => h.named i name made hi ho

theorem namedAfter_of_freeName {seen : List (List Char)} {name out : List Char} {steps : ℕ}
    (hname : name ∈ seen) (h : freeName seen name steps 2 = some out) :
    NamedAfter seen name out ∧ out ∉ seen := by
  obtain ⟨n, hn, rfl, hfree, htaken⟩ := freeName_eq_some h
  have hlen : n - 2 + 1 ≤ seen.length :=
    length_of_taken hname fun k hk hkn => htaken k hk (by omega)
  refine ⟨⟨fun hnot => absurd hname hnot, fun _ => ⟨n, hn, by omega, rfl, hfree, ?_⟩⟩, hfree⟩
  exact fun m hm hmn => htaken m hm hmn

theorem nodup_append_singleton {seen : List (List Char)} {name : List Char} (h : seen.Nodup)
    (hname : name ∉ seen) : (seen ++ [name]).Nodup :=
  List.nodup_append.mpr ⟨h, List.nodup_singleton name, fun a ha b hb => by
    rw [List.mem_singleton.mp hb]
    rintro rfl
    exact hname ha⟩

/-- **The names of a list are made distinct**, and nothing else of it changes. -/
theorem exists_dedupeFrom {steps : ℕ} {rs : List AudioRendition} :
    ∀ {seen : List (List Char)}, seen.Nodup → seen.length + rs.length ≤ steps →
      ∃ out, dedupeFrom steps seen rs = some out ∧
        DedupedAfter seen (rs.map AudioRendition.name) (out.map AudioRendition.name) ∧
        out.map ({ · with name := [] }) = rs.map ({ · with name := [] }) := by
  induction rs with
  | nil => exact fun hseen _ => ⟨[], rfl, dedupedAfter_nil hseen, rfl⟩
  | cons r rs ih =>
    intro seen hseen hsteps
    rw [List.length_cons] at hsteps
    by_cases hname : r.name ∈ seen
    · obtain ⟨unique, hunique⟩ := exists_freeName hname (by omega : seen.length ≤ steps)
      obtain ⟨hnamed, hfree⟩ := namedAfter_of_freeName hname hunique
      obtain ⟨out, hout, hdeduped, hrest⟩ := ih (nodup_append_singleton hseen hfree) (by
        rw [List.length_append, List.length_singleton]
        omega)
      refine ⟨{ r with name := unique } :: out, ?_, hdeduped.cons hnamed, ?_⟩
      · rw [dedupeFrom, if_pos (List.contains_iff_mem.mpr hname), hunique, Option.bind_some, hout,
          Option.map_some]
      · rw [List.map_cons, List.map_cons, hrest]
    · obtain ⟨out, hout, hdeduped, hrest⟩ := ih (nodup_append_singleton hseen hname) (by
        rw [List.length_append, List.length_singleton]
        omega)
      refine ⟨r :: out, ?_, hdeduped.cons ⟨fun _ => rfl, fun hmem => absurd hmem hname⟩, ?_⟩
      · rw [dedupeFrom, if_neg fun hmem => hname (List.contains_iff_mem.mp hmem), hout,
          Option.map_some]
      · rw [List.map_cons, List.map_cons, hrest]

/-- A rendition that may have a numbered name. -/
structure Renamed (r out : AudioRendition) : Prop where
  language : out.language = r.language
  isDefault : out.isDefault = r.isDefault
  uri : out.uri = r.uri
  name : out.name = r.name ∨ ∃ n, out.name = candidate r.name n

theorem forall₂_dedupeFrom {steps : ℕ} {rs : List AudioRendition} :
    ∀ {seen : List (List Char)} {out : List AudioRendition},
      dedupeFrom steps seen rs = some out → List.Forall₂ Renamed rs out := by
  induction rs with
  | nil =>
    intro seen out h
    obtain rfl := Option.some.inj h
    exact List.Forall₂.nil
  | cons r rs ih =>
    intro seen out h
    rw [dedupeFrom] at h
    split at h
    · obtain ⟨unique, hunique, h⟩ := Option.bind_eq_some_iff.mp h
      obtain ⟨rest, hrest, rfl⟩ := Option.map_eq_some_iff.mp h
      obtain ⟨n, -, hn, -⟩ := freeName_eq_some hunique
      exact List.Forall₂.cons ⟨rfl, rfl, rfl, Or.inr ⟨n, hn⟩⟩ (ih hrest)
    · obtain ⟨rest, hrest, rfl⟩ := Option.map_eq_some_iff.mp h
      exact List.Forall₂.cons ⟨rfl, rfl, rfl, Or.inl rfl⟩ (ih hrest)

/-! ### More steps change nothing -/

theorem freeName_mono {seen : List (List Char)} {base out : List Char} {steps more n : ℕ}
    (h : freeName seen base steps n = some out) (hle : steps ≤ more) :
    freeName seen base more n = some out := by
  induction steps generalizing n more with
  | zero => cases h
  | succ steps ih =>
    obtain ⟨more, rfl⟩ := Nat.exists_eq_succ_of_ne_zero (by omega : more ≠ 0)
    rw [freeName] at h ⊢
    split at h
    · next hn => rw [if_pos hn, ih h (by omega)]
    · next hn => rw [if_neg hn, h]

theorem dedupeFrom_mono {steps more : ℕ} (hle : steps ≤ more) {rs : List AudioRendition} :
    ∀ {seen : List (List Char)} {out : List AudioRendition},
      dedupeFrom steps seen rs = some out → dedupeFrom more seen rs = some out := by
  induction rs with
  | nil => exact fun h => h
  | cons r rs ih =>
    intro seen out h
    rw [dedupeFrom] at h ⊢
    split at h
    · next hname =>
      obtain ⟨unique, hunique, h⟩ := Option.bind_eq_some_iff.mp h
      obtain ⟨rest, hrest, rfl⟩ := Option.map_eq_some_iff.mp h
      rw [if_pos hname, freeName_mono hunique hle, Option.bind_some, ih hrest, Option.map_some]
    · next hname =>
      obtain ⟨rest, hrest, rfl⟩ := Option.map_eq_some_iff.mp h
      rw [if_neg hname, ih hrest, Option.map_some]

/-- **Renditions get distinct names**: with as many steps for a search as there are renditions, or
more, every search ends; each name is as it was if no name before it is this one, and otherwise has
the first number that is free; and nothing but the names changes. -/
theorem dedupeRenditionNames_deduped (renditions : List AudioRendition) :
    ∃ out, (∀ steps, renditions.length ≤ steps → dedupeRenditionNames steps renditions = some out) ∧
      Deduped (renditions.map AudioRendition.name) (out.map AudioRendition.name) ∧
      out.map ({ · with name := [] }) = renditions.map ({ · with name := [] }) := by
  obtain ⟨out, hout, hdeduped, hrest⟩ :=
    exists_dedupeFrom List.nodup_nil
      (by simp : ([] : List (List Char)).length + renditions.length ≤ renditions.length)
  exact ⟨out, fun steps hle => dedupeFrom_mono hle hout, hdeduped.deduped, hrest⟩

example : (dedupeRenditionNames 3 (["eng", "eng", "eng (2)"].map fun s =>
    { name := s.toList, language := none, isDefault := false, uri := none })).map
      (·.map AudioRendition.name) =
    some (["eng", "eng (2)", "eng (2) (2)"].map String.toList) := by
  decide

end EmeraldExchange.Transcoder.Renditions
