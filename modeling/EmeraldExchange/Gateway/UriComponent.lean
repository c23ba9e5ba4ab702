import EmeraldExchange.Gateway.MediaPath

/-!
# The components of a URL

Identifiers travel in paths with the bytes that would have a meaning there written as escapes.
Reading hands the two bytes after a percent sign to the parser of integers, which takes a plus sign
in front of a number. So `%+f` is read as the byte `0f`
(`decodeBytes_eq_some_iff`: a text is read as its zeroed text would be read
strictly), and it is on such texts, and on no others, that reading differs from the strict reading.
-/

namespace EmeraldExchange.Gateway

open MediaCore Words Percent

/-! ### Writing -/

def unreserved (b : UInt8) : Bool :=
  (0x30 ≤ b.toNat && b.toNat ≤ 0x39) || (0x41 ≤ b.toNat && b.toNat ≤ 0x5a) ||
    (0x61 ≤ b.toNat && b.toNat ≤ 0x7a) || b ∈ ascii "-_.!~*'()"

/-- **`encodeURIComponent`** -/
def encodeUriComponent (s : List Char) : List UInt8 :=
  encode (fun b => !unreserved b) (Utf8.encode s)

/-! ### The zeroed text -/

def plus : UInt8 := 0x2b

def zero : UInt8 := 0x30

/-- **The zeroed text**: a zero in place of the plus sign of each `%+h`. -/
def zeroed : List UInt8 → List UInt8
  | [] => []
  | b :: h :: l :: rest =>
    if b = sign ∧ h = plus ∧ (hexVal l).isSome then b :: zero :: l :: zeroed rest
    else b :: zeroed (h :: l :: rest)
  | b :: rest => b :: zeroed rest

/-- Somewhere there is a `%+h`. -/
def PlusEscape (s : List UInt8) : Prop :=
  ∃ before l rest, s = before ++ sign :: plus :: l :: rest ∧ (hexVal l).isSome

/-- **What strict reading answers**: every percent sign begins an escape, and the bytes are those of
a text. -/
def StrictlyDecodes (s : List UInt8) (t : List Char) : Prop :=
  Escaped s ∧ Utf8.decode (Percent.decode s) = some t

theorem zeroed_cons_of_ne {b : UInt8} (hb : b ≠ sign) (s : List UInt8) :
    zeroed (b :: s) = b :: zeroed s := by
  rcases s with _ | ⟨h, _ | ⟨l, rest⟩⟩
  · rfl
  · rfl
  · rw [zeroed, if_neg fun hall => hb hall.1]

theorem zeroed_plus {l : UInt8} (hl : (hexVal l).isSome) (s : List UInt8) :
    zeroed (sign :: plus :: l :: s) = sign :: zero :: l :: zeroed s := by
  rw [zeroed, if_pos ⟨rfl, rfl, hl⟩]

theorem zeroed_sign {s : List UInt8} (hs : ∀ l rest, s = plus :: l :: rest → hexVal l = none) :
    zeroed (sign :: s) = sign :: zeroed s := by
  rcases s with _ | ⟨h, _ | ⟨l, rest⟩⟩
  · rfl
  · rfl
  · refine (zeroed.eq_def _).trans (if_neg ?_)
    rintro ⟨-, rfl, hl⟩
    rw [hs l rest rfl] at hl
    cases hl

/-- A text without `%+h` is its own zeroed text. -/
theorem zeroed_of_not_plusEscape : ∀ {s : List UInt8}, ¬ PlusEscape s → zeroed s = s
  | [], _ => rfl
  | b :: s, hnot => by
    have hrest : ¬ PlusEscape s := by
      rintro ⟨before, l, rest, rfl, hl⟩
      exact hnot ⟨b :: before, l, rest, rfl, hl⟩
    rcases eq_or_ne b sign with rfl | hne
    · rw [zeroed_sign, zeroed_of_not_plusEscape hrest]
      rintro l rest rfl
      refine Option.not_isSome_iff_eq_none.mp fun hl => ?_
      exact hnot ⟨[], l, rest, rfl, hl⟩
    · rw [zeroed_cons_of_ne hne, zeroed_of_not_plusEscape hrest]

/-- In a text with a `%+h` not every percent sign begins an escape. -/
theorem not_escaped_of_plusEscape {s : List UInt8} (hplus : PlusEscape s) : ¬ Escaped s := by
  obtain ⟨before, l, rest, rfl, -⟩ := hplus
  intro hescaped
  obtain ⟨h, l', rest', heq, hsome⟩ := hescaped before _ rfl
  obtain ⟨rfl, -⟩ := List.cons.inj heq
  rw [escape_eq_none_of_left (by decide)] at hsome
  cases hsome

/-! ### Reading -/

theorem fromStrRadix_plus (l : UInt8) : fromStrRadix plus l = escape zero l := by
  refine (if_pos rfl).trans ?_
  rw [escape]
  show (hexVal l).map UInt8.ofNat = (hexVal l).bind fun l => some (UInt8.ofNat (16 * 0 + l))
  rcases hexVal l with _ | l
  · rfl
  · simp

theorem fromStrRadix_of_ne {h : UInt8} (hh : h ≠ plus) (l : UInt8) :
    fromStrRadix h l = escape h l := by
  exact if_neg hh

theorem decodeBytes_sign (h l : UInt8) (rest : List UInt8) :
    decodeBytes (sign :: h :: l :: rest) =
      (fromStrRadix h l).bind fun c => (decodeBytes rest).bind fun out => some (c :: out) := by
  rw [decodeBytes, if_pos rfl]
  rfl

theorem exists_zeroed_cons (b : UInt8) (s : List UInt8) : ∃ tail, zeroed (b :: s) = b :: tail := by
  rcases s with _ | ⟨h, _ | ⟨l, rest⟩⟩
  · exact ⟨[], rfl⟩
  · exact ⟨[h], rfl⟩
  · rw [zeroed]
    split
    · exact ⟨_, rfl⟩
    · exact ⟨_, rfl⟩

theorem zeroed_of_escape {h l : UInt8} (hsome : (escape h l).isSome) (rest : List UInt8) :
    zeroed (sign :: h :: l :: rest) = sign :: h :: l :: zeroed rest := by
  obtain ⟨c, hc⟩ := Option.isSome_iff_exists.mp hsome
  obtain ⟨hh, hl⟩ := hexVal_of_escape hc
  have hne : ∀ b, (hexVal b).isSome → b ≠ sign ∧ b ≠ plus := by
    rintro b hb
    constructor
    · rintro rfl
      exact absurd hb (by decide)
    · rintro rfl
      exact absurd hb (by decide)
  rw [zeroed_sign, zeroed_cons_of_ne (hne h hh).1, zeroed_cons_of_ne (hne l hl).1]
  intro l' rest' heq
  exact absurd (List.cons.inj heq).1 (hne h hh).2

/-- **Behind a percent sign of the zeroed text stands the escape that is read.** -/
theorem exists_zeroed_sign (h l : UInt8) (rest : List UInt8) :
    ∃ h' l' tail, zeroed (sign :: h :: l :: rest) = sign :: h' :: l' :: tail ∧
      fromStrRadix h l = escape h' l' ∧ ((escape h' l').isSome → tail = zeroed rest) := by
  by_cases hall : h = plus ∧ (hexVal l).isSome
  · obtain ⟨rfl, hl⟩ := hall
    exact ⟨zero, l, zeroed rest, zeroed_plus hl rest, fromStrRadix_plus l, fun _ => rfl⟩
  · have hsign : zeroed (sign :: h :: l :: rest) = sign :: zeroed (h :: l :: rest) := by
      refine zeroed_sign ?_
      intro l' rest' heq
      obtain ⟨hh, htail⟩ := List.cons.inj heq
      obtain ⟨rfl, -⟩ := List.cons.inj htail
      exact Option.not_isSome_iff_eq_none.mp fun hl => hall ⟨hh, hl⟩
    have hradix : fromStrRadix h l = escape h l := by
      by_cases hplus : h = plus
      · -- behind the plus sign there is no digit, and neither parser answers
        have hl : hexVal l = none :=
          Option.not_isSome_iff_eq_none.mp fun hl => hall ⟨hplus, hl⟩
        rw [hplus, fromStrRadix_plus, escape_eq_none_of_right hl, escape_eq_none_of_right hl]
      · exact fromStrRadix_of_ne hplus l
    rcases hc : escape h l with _ | c
    · by_cases hh : h = sign
      · obtain ⟨l', tail, htail⟩ : ∃ l' tail, zeroed (h :: l :: rest) = h :: l' :: tail := by
          rcases rest with _ | ⟨x, rest⟩
          · exact ⟨l, [], rfl⟩
          · rw [zeroed]
            split
            · exact ⟨_, _, rfl⟩
            · obtain ⟨tail, htail⟩ := exists_zeroed_cons l (x :: rest)
              exact ⟨l, tail, by rw [htail]⟩
        refine ⟨h, l', tail, by rw [hsign, htail], ?_, ?_⟩
        · rw [hradix, hc, hh, escape_eq_none_of_left hexVal_sign]
        · rw [hh, escape_eq_none_of_left hexVal_sign]
          rintro ⟨⟩
      · obtain ⟨tail, htail⟩ := exists_zeroed_cons l rest
        refine ⟨h, l, tail, ?_, hradix, ?_⟩
        · rw [hsign, zeroed_cons_of_ne hh, htail]
        · rw [hc]
          rintro ⟨⟩
    · exact ⟨h, l, zeroed rest, zeroed_of_escape (by rw [hc]; rfl) rest, hradix, fun _ => rfl⟩

/-- **A text is read as its zeroed text is read strictly.** -/
theorem decodeBytes_eq_some_iff : ∀ {s w : List UInt8},
    decodeBytes s = some w ↔ Spells (zeroed s) w
  | [], w => by
    constructor
    · rintro ⟨⟩
      exact .nil
    · rintro ⟨⟩
      rfl
  | b :: s, w => by
    rcases eq_or_ne b sign with rfl | hne
    · rcases s with _ | ⟨h, _ | ⟨l, rest⟩⟩
      · refine ⟨?_, fun h => absurd h (not_spells_of_short (by decide))⟩
        rintro ⟨⟩
      · refine ⟨?_, fun h => absurd h (not_spells_of_short (Nat.lt_succ_self 1))⟩
        rintro ⟨⟩
      · obtain ⟨h', l', tail, hzeroed, hradix, htail⟩ := exists_zeroed_sign h l rest
        have ih := fun v => decodeBytes_eq_some_iff (s := rest) (w := v)
        rw [decodeBytes_sign, hzeroed, hradix, spells_escape, Option.bind_eq_some_iff]
        constructor
        · rintro ⟨c, hc, hout⟩
          obtain ⟨v, hv, hw⟩ := Option.bind_eq_some_iff.mp hout
          rw [htail (by rw [hc]; rfl)]
          exact ⟨c, v, hc, (ih v).mp hv, (Option.some.inj hw).symm⟩
        · rintro ⟨c, v, hc, hv, rfl⟩
          rw [htail (by rw [hc]; rfl)] at hv
          exact ⟨c, hc, by rw [(ih v).mpr hv, Option.bind_some]⟩
    · have ih := fun v => decodeBytes_eq_some_iff (s := s) (w := v)
      rw [decodeBytes_cons_of_ne hne, zeroed_cons_of_ne hne, spells_cons_of_ne hne,
        Option.map_eq_some_iff]
      refine exists_congr fun v => and_congr (ih v) eq_comm
termination_by s => s.length

/-- **What reading answers.** -/
theorem decodeUriComponent_eq_some_iff {s : List UInt8} {t : List Char} :
    decodeUriComponent s = some t ↔ StrictlyDecodes (zeroed s) t := by
  rw [decodeUriComponent, Option.bind_eq_some_iff]
  simp only [decodeBytes_eq_some_iff, spells_iff, StrictlyDecodes]
  constructor
  · rintro ⟨w, ⟨hescaped, rfl⟩, ht⟩
    exact ⟨hescaped, ht⟩
  · rintro ⟨hescaped, ht⟩
    exact ⟨_, ⟨hescaped, rfl⟩, ht⟩

/-- **Reading is strict reading** but where there is a `%+h` and the zeroed text can be read: then
it answers although a percent sign begins no escape. And what is written is read again. -/
theorem decodeUriComponent_strict_iff (s : List UInt8) (text : List Char) :
    ((∀ t, decodeUriComponent s = some t ↔ StrictlyDecodes s t) ↔
      ¬ (PlusEscape s ∧ ∃ t, StrictlyDecodes (zeroed s) t)) ∧
    decodeUriComponent (encodeUriComponent text) = some text := by
  constructor
  · simp only [decodeUriComponent_eq_some_iff]
    constructor
    · rintro hstrict ⟨hplus, t, ht⟩
      exact not_escaped_of_plusEscape hplus ((hstrict t).mp ht).1
    · intro hnot t
      by_cases hplus : PlusEscape s
      · constructor
        · exact fun ht => absurd ⟨hplus, t, ht⟩ hnot
        · exact fun ht => absurd ht.1 (not_escaped_of_plusEscape hplus)
      · rw [zeroed_of_not_plusEscape hplus]
  · have hspells : Spells (encodeUriComponent text) (Utf8.encode text) :=
      spells_encode (by decide) (Utf8.encode text)
    rw [decodeUriComponent, decodeBytes_of_spells hspells, Option.bind_some, Utf8.decode_encode]

/-- `%+f` is read as the byte `0f`. -/
theorem decodes_plus_escape :
    ¬ ∀ s t, decodeUriComponent s = some t ↔ StrictlyDecodes s t := by
  intro hall
  -- the counterexample is the text `%+f`
  have hread : decodeUriComponent (ascii "%+f") = some ['\x0f'] := by decide +kernel
  obtain ⟨h, l, rest, heq, hsome⟩ := ((hall _ _).mp hread).1 [] (ascii "+f") rfl
  obtain ⟨rfl, -⟩ := List.cons.inj heq
  rw [escape_eq_none_of_left (by decide)] at hsome
  cases hsome

end EmeraldExchange.Gateway
