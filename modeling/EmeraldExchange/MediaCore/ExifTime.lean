import EmeraldExchange.Auth.Session
import EmeraldExchange.Iptv.XmltvTime
import EmeraldExchange.Lib.TextOrder

/-!
# The times of photos

The time in a photo has colons in its date and a space before its time of day, and is written with
hyphens and a `T` so that the texts sort like the times. The value comes from the file: it is tested
for its separators and the digits of its year, and the parts between these are taken as they are.

So a value with the separators in place and anything else than digits between them is not dropped:
it is taken, or the text is cut inside a character and the call panics
(`sortable_iff`).
-/

namespace EmeraldExchange.MediaCore.ExifTime

open Auth (trimMatches whiteSpace)
open Iptv (slice slice_append encode_digits)
open TextOrder (Field TextLt)

/-! ### What the code does -/

/-- The separators of a value, and its length. -/
def hasSeparators (bytes : List UInt8) : Bool :=
  19 ≤ bytes.length && bytes[4]? = some 0x3a && bytes[7]? = some 0x3a && bytes[10]? = some 0x20

/-- **`exif_datetime_to_sortable`**, with nothing for a panic. -/
def exifDatetimeToSortable (raw : List Char) : Option (Option (List Char)) :=
  let s := trimMatches whiteSpace raw
  if hasSeparators (Utf8.encode s) then do
    let year ← slice s 0 4
    if year.all Char.isDigit then
      let month ← slice s 5 7
      let day ← slice s 8 10
      let time ← slice s 11 19
      return some (year ++ '-' :: (month ++ '-' :: (day ++ 'T' :: time)))
    else return none
  else return none

/-! ### What is asked for -/

/-- **A date and a time**, in digits. -/
structure Stamp where
  year : Field 4
  month : Field 2
  day : Field 2
  hour : Field 2
  minute : Field 2
  second : Field 2

namespace Stamp

variable (t : Stamp)

def clock : List Char :=
  t.hour.digits ++ ':' :: (t.minute.digits ++ ':' :: t.second.digits)

def exif : List Char :=
  t.year.digits ++ ':' :: (t.month.digits ++ ':' :: (t.day.digits ++ ' ' :: t.clock))

def sortable : List Char :=
  t.year.digits ++ '-' :: (t.month.digits ++ '-' :: (t.day.digits ++ 'T' :: t.clock))

/-- The numbers from the year down to the second. -/
def key : List ℕ :=
  [t.year.value, t.month.value, t.day.value, t.hour.value, t.minute.value, t.second.value]

/-- **Before, in time.** -/
def Before (t t' : Stamp) : Prop := List.Lex (· < ·) t.key t'.key

end Stamp

/-- A value shows a time in its first characters. -/
def Shows (raw : List Char) (t : Stamp) : Prop :=
  ∃ rest, trimMatches whiteSpace raw = t.exif ++ rest

/-- **No panic, and only times are taken.** -/
def Sound (raw : List Char) : Prop :=
  ∃ result, exifDatetimeToSortable raw = some result ∧ ∀ out, result = some out → ∃ t, Shows raw t

/-- **Texts sort like times**: of two values that are taken. -/
def Chronological (raw raw' : List Char) : Prop :=
  ∀ out out', exifDatetimeToSortable raw = some (some out) →
    exifDatetimeToSortable raw' = some (some out') →
    ∃ t t', Shows raw t ∧ Shows raw' t' ∧ (TextLt out out' ↔ t.Before t')

/-- A value has what is tested: its length, its separators, and the digits of its year. -/
def Tested (raw : List Char) : Prop :=
  let s := trimMatches whiteSpace raw
  hasSeparators (Utf8.encode s) = true ∧
    ∃ year, slice s 0 4 = some year ∧ year.all Char.isDigit = true

/-! ### The texts of times -/

section stamps

variable (t t' : Stamp)

/-- **The texts of times sort like the times.** -/
theorem sortable_lt : TextLt t.sortable t'.sortable ↔ t.Before t' := by
  simp only [Stamp.sortable, Stamp.clock, Stamp.Before, Stamp.key, Field.lt_iff,
    Field.last_lt_iff, TextOrder.lex_separator, List.cons_lex_cons_iff, List.not_lex_nil,
    and_false, or_false]

theorem length_encode_field {width : ℕ} (f : Field width) :
    (Utf8.encode f.digits).length = width := by
  rw [encode_digits f.isDigit, List.length_map, f.length_eq]

theorem length_encode_separator {width : ℕ} (f : Field width) {c : Char} (hc : c.toNat < 0x80)
    (s : List Char) : (Utf8.encode (f.digits ++ c :: s)).length =
      width + 1 + (Utf8.encode s).length := by
  rw [Utf8.encode_append, Utf8.encode_cons, Utf8.encodeChar_of_lt hc, List.length_append,
    List.length_append, length_encode_field, List.length_singleton, Nat.add_assoc]

theorem length_encode_clock : (Utf8.encode t.clock).length = 8 := by
  have hc : ':'.toNat < 0x80 := by decide
  rw [Stamp.clock, length_encode_separator _ hc, length_encode_separator _ hc, length_encode_field]

theorem slices_of_shows {raw : List Char} (h : Shows raw t) :
    slice (trimMatches whiteSpace raw) 0 4 = some t.year.digits ∧
      slice (trimMatches whiteSpace raw) 5 7 = some t.month.digits ∧
      slice (trimMatches whiteSpace raw) 8 10 = some t.day.digits ∧
      slice (trimMatches whiteSpace raw) 11 19 = some t.clock := by
  obtain ⟨rest, hs⟩ := h
  have hc : ':'.toNat < 0x80 := by decide
  have hspace : ' '.toNat < 0x80 := by decide
  have hyear : trimMatches whiteSpace raw = [] ++ (t.year.digits ++
      (':' :: (t.month.digits ++ ':' :: (t.day.digits ++ ' ' :: t.clock)) ++ rest)) := by
    rw [hs, Stamp.exif, List.nil_append, List.append_assoc]
  have hmonth : trimMatches whiteSpace raw = (t.year.digits ++ [':']) ++ (t.month.digits ++
      (':' :: (t.day.digits ++ ' ' :: t.clock) ++ rest)) := by
    rw [hs, Stamp.exif]
    simp only [List.append_assoc, List.cons_append, List.nil_append]
  have hday : trimMatches whiteSpace raw = (t.year.digits ++ ':' :: (t.month.digits ++ [':'])) ++
      (t.day.digits ++ (' ' :: t.clock ++ rest)) := by
    rw [hs, Stamp.exif]
    simp only [List.append_assoc, List.cons_append, List.nil_append]
  have hclock : trimMatches whiteSpace raw =
      (t.year.digits ++ ':' :: (t.month.digits ++ ':' :: (t.day.digits ++ [' ']))) ++
        (t.clock ++ rest) := by
    rw [hs, Stamp.exif]
    simp only [List.append_assoc, List.cons_append, List.nil_append]
  refine ⟨?_, ?_, ?_, ?_⟩
  · rw [hyear]
    exact slice_append rfl (length_encode_field _)
  · rw [hmonth]
    refine slice_append (length_encode_separator _ hc []) ?_
    rw [List.append_assoc, List.singleton_append, length_encode_separator _ hc,
      length_encode_field]
  · rw [hday]
    refine slice_append ?_ ?_
    · rw [length_encode_separator _ hc, length_encode_separator _ hc]
      rfl
    · simp only [List.append_assoc, List.cons_append, List.nil_append,
        length_encode_separator _ hc, length_encode_field]
  · rw [hclock]
    refine slice_append ?_ ?_
    · rw [length_encode_separator _ hc, length_encode_separator _ hc,
        length_encode_separator _ hspace]
      rfl
    · simp only [List.append_assoc, List.cons_append, List.nil_append,
        length_encode_separator _ hc, length_encode_separator _ hspace, length_encode_clock]

theorem getElem?_append_cons {x y : List UInt8} {a : UInt8} {n : ℕ} (h : x.length = n) :
    (x ++ a :: y)[n]? = some a := by
  rw [List.getElem?_append_right h.le, h, Nat.sub_self]
  rfl

theorem hasSeparators_of_shows {raw : List Char} (h : Shows raw t) :
    hasSeparators (Utf8.encode (trimMatches whiteSpace raw)) = true := by
  obtain ⟨rest, hs⟩ := h
  have hc : ':'.toNat < 0x80 := by decide
  have hspace : ' '.toNat < 0x80 := by decide
  have hcolon : String.utf8EncodeChar ':' = [0x3a] := by decide
  have hblank : String.utf8EncodeChar ' ' = [0x20] := by decide
  have hlen : 19 ≤ (Utf8.encode (trimMatches whiteSpace raw)).length := by
    rw [hs, Utf8.encode_append, List.length_append, Stamp.exif, length_encode_separator _ hc,
      length_encode_separator _ hc, length_encode_separator _ hspace, length_encode_clock]
    omega
  have hbytes : Utf8.encode (trimMatches whiteSpace raw) =
      Utf8.encode t.year.digits ++ 0x3a :: (Utf8.encode t.month.digits ++ 0x3a ::
        (Utf8.encode t.day.digits ++ 0x20 :: Utf8.encode (t.clock ++ rest))) := by
    simp only [hs, Stamp.exif, Utf8.encode_append, Utf8.encode_cons, hcolon, hblank,
      List.append_assoc, List.cons_append, List.nil_append]
  have hfour : (Utf8.encode (trimMatches whiteSpace raw))[4]? = some 0x3a := by
    rw [hbytes]
    exact getElem?_append_cons (length_encode_field _)
  have hseven : (Utf8.encode (trimMatches whiteSpace raw))[7]? = some 0x3a := by
    rw [hbytes, ← List.cons_append, ← List.append_assoc]
    refine getElem?_append_cons ?_
    rw [List.length_append, List.length_cons, length_encode_field, length_encode_field]
  have hten : (Utf8.encode (trimMatches whiteSpace raw))[10]? = some 0x20 := by
    rw [hbytes, ← List.cons_append, ← List.append_assoc, ← List.cons_append, ← List.append_assoc]
    refine getElem?_append_cons ?_
    rw [List.length_append, List.length_append, List.length_cons, List.length_cons,
      length_encode_field, length_encode_field, length_encode_field]
  simp [hasSeparators, hlen, hfour, hseven, hten]

/-- **A value that shows a time is taken.** -/
theorem sortable_of_shows {raw : List Char} (h : Shows raw t) :
    exifDatetimeToSortable raw = some (some t.sortable) := by
  obtain ⟨hyear, hmonth, hday, hclock⟩ := slices_of_shows t h
  rw [exifDatetimeToSortable, if_pos (hasSeparators_of_shows t h)]
  simp only [hyear, hmonth, hday, hclock, Option.bind_eq_bind, Option.bind_some, t.year.isDigit,
    if_true]
  rfl

end stamps

/-! ### Cuts at separators -/

section cuts

variable {s : List Char} {i j : ℕ}

/-- The bytes of a character from `0x80` on are not below this. -/
theorem not_lt_of_mem_encodeChar {c : Char} (hc : ¬ c.toNat < 0x80) {b : UInt8}
    (hb : b ∈ String.utf8EncodeChar c) : ¬ b < 0x80 := by
  have hhigh : ∀ v k : ℕ, 0x80 ≤ k → v + k < 256 → ¬ UInt8.ofNat (v + k) < 0x80 := by
    intro v k hk hlt hlow
    have hnat := UInt8.lt_iff_toNat_lt.mp hlow
    rw [UInt8.toNat_ofNat_of_lt' hlt] at hnat
    exact absurd hnat (by simp; omega)
  rw [String.utf8EncodeChar] at hb
  rw [if_neg (show ¬ c.val.toNat ≤ 127 from fun hle => hc (Nat.lt_succ_of_le hle))] at hb
  split_ifs at hb
  all_goals
    simp only [List.mem_cons, List.not_mem_nil, or_false] at hb
  · rcases hb with rfl | rfl
    · exact hhigh _ _ (by omega) (by omega)
    · exact hhigh _ _ (by omega) (by omega)
  · rcases hb with rfl | rfl | rfl
    · exact hhigh _ _ (by omega) (by omega)
    · exact hhigh _ _ (by omega) (by omega)
    · exact hhigh _ _ (by omega) (by omega)
  · rcases hb with rfl | rfl | rfl | rfl
    · exact hhigh _ _ (by omega) (by omega)
    · exact hhigh _ _ (by omega) (by omega)
    · exact hhigh _ _ (by omega) (by omega)
    · exact hhigh _ _ (by omega) (by omega)

/-- **A byte below `0x80` is a character**, and the text may be cut before and after it. -/
theorem cutAt_of_ascii {b : UInt8} (hb : b < 0x80) (h : (Utf8.encode s)[i]? = some b) :
    (Utf8.cutAt s i).isSome = true ∧ (Utf8.cutAt s (i + 1)).isSome = true := by
  induction s generalizing i with
  | nil => cases h
  | cons c s ih =>
    have hpos := c.utf8Size_pos
    rw [Utf8.encode_cons] at h
    rcases Nat.lt_or_ge i (String.utf8EncodeChar c).length with hin | hout
    · rw [List.getElem?_append_left hin] at h
      have hc : c.toNat < 0x80 := by
        by_contra hc
        exact not_lt_of_mem_encodeChar hc (List.mem_of_getElem? h) hb
      rw [Utf8.encodeChar_of_lt hc, List.length_singleton, Nat.lt_one_iff] at hin
      obtain rfl := hin
      have hone : Utf8.cutAt (c :: s) 1 = some ([c], s) :=
        Utf8.cutAt_eq_some.mpr ⟨rfl, by rw [Utf8.encode_ascii (by simpa using hc)]; rfl⟩
      exact ⟨rfl, by rw [hone]; rfl⟩
    · rw [List.getElem?_append_right hout, String.length_utf8EncodeChar] at h
      rw [String.length_utf8EncodeChar] at hout
      obtain ⟨hbefore, hafter⟩ := ih h
      obtain ⟨i, rfl⟩ := Nat.exists_eq_add_of_le hout
      rw [Nat.add_sub_cancel_left] at hbefore hafter
      have hcut : ∀ n, (Utf8.cutAt s n).isSome = true →
          (Utf8.cutAt (c :: s) (c.utf8Size + n)).isSome = true := by
        intro n hn
        obtain ⟨⟨x, y⟩, hxy⟩ := Option.isSome_iff_exists.mp hn
        obtain ⟨rfl, rfl⟩ := Utf8.cutAt_eq_some.mp hxy
        have hcons : Utf8.cutAt (c :: (x ++ y)) (c.utf8Size + (Utf8.encode x).length) =
            some (c :: x, y) :=
          Utf8.cutAt_eq_some.mpr ⟨rfl, Utf8.length_encode_cons c x⟩
        rw [hcons]
        rfl
      exact ⟨hcut i hbefore, by rw [Nat.add_assoc]; exact hcut (i + 1) hafter⟩

theorem slice_isSome (hij : i ≤ j) (hi : (Utf8.cutAt s i).isSome = true)
    (hj : (Utf8.cutAt s j).isSome = true) : (slice s i j).isSome = true := by
  obtain ⟨⟨x, y⟩, hxy⟩ := Option.isSome_iff_exists.mp hi
  obtain ⟨⟨x', y'⟩, hxy'⟩ := Option.isSome_iff_exists.mp hj
  obtain ⟨rfl, rfl⟩ := Utf8.cutAt_eq_some.mp hxy
  obtain ⟨heq, rfl⟩ := Utf8.cutAt_eq_some.mp hxy'
  have hprefix : x <+: x' := by
    rcases List.prefix_or_prefix_of_prefix ⟨y, rfl⟩ ⟨y', heq.symm⟩ with h | ⟨z, rfl⟩
    · exact h
    · -- the part that is longer in characters is not shorter in bytes
      rw [Utf8.encode_append, List.length_append] at hij
      have hz : Utf8.encode z = [] := List.length_eq_zero_iff.mp (by omega)
      have hnil : z = [] := Utf8.encode_injective hz
      rw [hnil, List.append_nil]
  obtain ⟨m, rfl⟩ := hprefix
  rw [List.append_assoc] at heq
  rw [heq, slice_append rfl rfl]
  rfl

end cuts

/-! ### What is tested -/

section tested

variable {raw : List Char}

theorem slices_isSome (h : hasSeparators (Utf8.encode (trimMatches whiteSpace raw)) = true) :
    (slice (trimMatches whiteSpace raw) 0 4).isSome = true ∧
      (slice (trimMatches whiteSpace raw) 5 7).isSome = true ∧
      (slice (trimMatches whiteSpace raw) 8 10).isSome = true := by
  simp only [hasSeparators, Bool.and_eq_true, decide_eq_true_eq] at h
  obtain ⟨⟨⟨-, hfour⟩, hseven⟩, hten⟩ := h
  obtain ⟨h4, h5⟩ := cutAt_of_ascii (by decide) hfour
  obtain ⟨h7, h8⟩ := cutAt_of_ascii (by decide) hseven
  obtain ⟨h10, -⟩ := cutAt_of_ascii (by decide) hten
  have h0 : (Utf8.cutAt (trimMatches whiteSpace raw) 0).isSome = true := by
    rw [Utf8.cutAt_zero]
    rfl
  exact ⟨slice_isSome (by omega) h0 h4, slice_isSome (by omega) h5 h7,
    slice_isSome (by omega) h8 h10⟩

theorem sortable_of_not_tested (h : ¬ Tested raw) : exifDatetimeToSortable raw = some none := by
  rw [exifDatetimeToSortable]
  split
  · next hsep =>
    obtain ⟨year, hyear⟩ := Option.isSome_iff_exists.mp (slices_isSome hsep).1
    have hdigits : ¬ year.all Char.isDigit = true := fun hall => h ⟨hsep, year, hyear, hall⟩
    simp only [hyear, Option.bind_eq_bind, Option.bind_some, if_neg hdigits]
    rfl
  · rfl

theorem sortable_of_tested (h : Tested raw) :
    exifDatetimeToSortable raw = none ∨ ∃ out, exifDatetimeToSortable raw = some (some out) := by
  obtain ⟨hsep, year, hyear, hall⟩ := h
  obtain ⟨-, hmonth, hday⟩ := slices_isSome hsep
  obtain ⟨month, hmonth⟩ := Option.isSome_iff_exists.mp hmonth
  obtain ⟨day, hday⟩ := Option.isSome_iff_exists.mp hday
  rw [exifDatetimeToSortable, if_pos hsep]
  simp only [hyear, hmonth, hday, Option.bind_eq_bind, Option.bind_some, if_pos hall]
  rcases slice (trimMatches whiteSpace raw) 11 19 with _ | time
  · exact Or.inl rfl
  · exact Or.inr ⟨_, rfl⟩

/-- **A value is dealt with soundly if and only if it is a time or fails the test.** -/
theorem sound_iff_shows : Sound raw ↔ (Tested raw → ∃ t, Shows raw t) := by
  constructor
  · rintro ⟨result, hresult, hshows⟩ htested
    rcases sortable_of_tested htested with h | ⟨out, h⟩
    · rw [h] at hresult
      cases hresult
    · obtain rfl := Option.some.inj (hresult.symm.trans h)
      exact hshows out rfl
  · intro h
    by_cases htested : Tested raw
    · obtain ⟨t, ht⟩ := h htested
      exact ⟨_, sortable_of_shows t ht, fun out _ => ⟨t, ht⟩⟩
    · exact ⟨none, sortable_of_not_tested htested, fun out hout => by cases hout⟩

theorem tested_of_sortable {out : List Char}
    (h : exifDatetimeToSortable raw = some (some out)) : Tested raw := by
  by_contra hnot
  rw [sortable_of_not_tested hnot] at h
  cases h

end tested

/-- **EXIF times.** A value is dealt with soundly – without a panic, and taken only if it shows a
time in its first characters – if and only if it shows one or fails the test; and the texts of two
values that are taken sort like their times where both are like this. -/
theorem sortable_iff (raw raw' : List Char) : (Sound raw ↔ (Tested raw → ∃ t, Shows raw t)) ∧
    ((Tested raw → ∃ t, Shows raw t) → (Tested raw' → ∃ t, Shows raw' t) →
      Chronological raw raw') := by
  refine ⟨sound_iff_shows, fun h h' out out' hout hout' => ?_⟩
  obtain ⟨t, ht⟩ := h (tested_of_sortable hout)
  obtain ⟨t', ht'⟩ := h' (tested_of_sortable hout')
  rw [sortable_of_shows t ht] at hout
  rw [sortable_of_shows t' ht'] at hout'
  obtain rfl := Option.some.inj (Option.some.inj hout)
  obtain rfl := Option.some.inj (Option.some.inj hout')
  exact ⟨t, t', ht, ht', sortable_lt t t'⟩

/-- A value whose last character has two bytes, at the place of the last digit. -/
def accented : List Char := "2023:06:14 10:20:3é".toList

/-- A value with letters between its separators. -/
def lettered : List Char := "2023:xx:yy abcdefgh".toList

/-- **The call panics, and takes what is not a time.** -/
theorem not_sound_accented : ¬ Sound accented ∧ ¬ Sound lettered := by
  constructor
  · rintro ⟨result, hresult, -⟩
    have hpanic : exifDatetimeToSortable accented = none := by decide
    rw [hpanic] at hresult
    cases hresult
  · rintro ⟨result, hresult, hshows⟩
    have htaken : exifDatetimeToSortable lettered =
        some (some "2023-xx-yyTabcdefgh".toList) := by decide
    obtain ⟨t, ht⟩ := hshows _ (Option.some.inj (hresult.symm.trans htaken))
    have hmonth : slice (trimMatches whiteSpace lettered) 5 7 = some "xx".toList := by decide
    have hdigits := t.month.isDigit
    rw [Option.some.inj ((slices_of_shows t ht).2.1.symm.trans hmonth)] at hdigits
    exact absurd hdigits (by decide)

end EmeraldExchange.MediaCore.ExifTime
