import EmeraldExchange.Lib.Words
import Mathlib.Data.UInt

/-!
# Percent-encoded bytes

In a path a byte may be written as an escape: a percent sign and two hexadecimal digits. Reading
turns escapes into their bytes and leaves everything else as it is, also a percent sign that begins
no escape; writing turns some bytes into escapes. When bytes are written and read, and no percent
sign and no byte that writing would turn into an escape comes out, then the bytes had been spelled
without a stray percent sign (`spells_of_decode_encode`), so that every
reader agrees on them.
-/

namespace EmeraldExchange.Percent

def sign : UInt8 := 0x25

def hexVal (b : UInt8) : Option ℕ :=
  if 0x30 ≤ b.toNat ∧ b.toNat ≤ 0x39 then some (b.toNat - 0x30)
  else if 0x41 ≤ b.toNat ∧ b.toNat ≤ 0x46 then some (b.toNat - 0x37)
  else if 0x61 ≤ b.toNat ∧ b.toNat ≤ 0x66 then some (b.toNat - 0x57)
  else none

def escape (h l : UInt8) : Option UInt8 := do
  let h ← hexVal h
  let l ← hexVal l
  some (UInt8.ofNat (16 * h + l))

/-- **Read escapes.** -/
def decode : List UInt8 → List UInt8
  | [] => []
  | b :: h :: l :: rest =>
    if b = sign then
      match escape h l with
      | some c => c :: decode rest
      | none => b :: decode (h :: l :: rest)
    else b :: decode (h :: l :: rest)
  | b :: rest => b :: decode rest

def hexDigit (n : ℕ) : UInt8 := UInt8.ofNat (if n < 10 then 0x30 + n else 0x37 + n)

variable (special : UInt8 → Bool)

def write (b : UInt8) : List UInt8 :=
  if special b then [sign, hexDigit (b.toNat / 16), hexDigit (b.toNat % 16)] else [b]

/-- **Write some bytes as escapes.** -/
def encode (bytes : List UInt8) : List UInt8 := bytes.flatMap (write special)

/-- **How bytes are spelled**: each as it is, unless it is a percent sign, or as an escape. -/
inductive Spells : List UInt8 → List UInt8 → Prop
  | nil : Spells [] []
  | byte {b : UInt8} {s w : List UInt8} (hb : b ≠ sign) (h : Spells s w) : Spells (b :: s) (b :: w)
  | escape {h l c : UInt8} {s w : List UInt8} (hc : escape h l = some c) (hs : Spells s w) :
    Spells (sign :: h :: l :: s) (c :: w)

/-! ### Reading -/

theorem hexVal_sign : hexVal sign = none := by decide

theorem hexVal_hexDigit : ∀ d < 16, hexVal (hexDigit d) = some d := by decide

theorem escape_hexDigit (b : UInt8) :
    escape (hexDigit (b.toNat / 16)) (hexDigit (b.toNat % 16)) = some b := by
  have hb : b.toNat < 256 := b.toNat_lt
  have hdiv : 16 * (b.toNat / 16) + b.toNat % 16 = b.toNat := by omega
  rw [escape, hexVal_hexDigit _ (by omega), hexVal_hexDigit _ (by omega)]
  show some (UInt8.ofNat (16 * (b.toNat / 16) + b.toNat % 16)) = some b
  rw [hdiv, UInt8.ofNat_toNat]

theorem decode_cons_of_ne {b : UInt8} (hb : b ≠ sign) (s : List UInt8) :
    decode (b :: s) = b :: decode s := by
  rcases s with _ | ⟨h, _ | ⟨l, rest⟩⟩
  · rfl
  · rfl
  · rw [decode, if_neg hb]

theorem decode_escape {h l c : UInt8} (hc : escape h l = some c) (s : List UInt8) :
    decode (sign :: h :: l :: s) = c :: decode s := by
  rw [decode, if_pos rfl, hc]

theorem decode_sign {s : List UInt8}
    (hs : ∀ h l rest, s = h :: l :: rest → escape h l = none) :
    decode (sign :: s) = sign :: decode s := by
  rcases s with _ | ⟨h, _ | ⟨l, rest⟩⟩
  · rfl
  · rfl
  · rw [decode, if_pos rfl, hs h l rest rfl]

theorem sign_mem_decode {s : List UInt8}
    (hs : ∀ h l rest, s = h :: l :: rest → escape h l = none) : sign ∈ decode (sign :: s) := by
  rw [decode_sign hs]
  exact List.mem_cons_self

theorem escape_eq_none_of_left {h : UInt8} (hh : hexVal h = none) (l : UInt8) :
    escape h l = none := by
  rw [escape, hh]
  rfl

theorem escape_eq_none_of_right {l : UInt8} (hl : hexVal l = none) (h : UInt8) :
    escape h l = none := by
  rw [escape, hl]
  rcases hexVal h with _ | _
  · rfl
  · rfl

theorem hexVal_of_escape {h l c : UInt8} (hc : escape h l = some c) :
    (hexVal h).isSome ∧ (hexVal l).isSome := by
  constructor
  · refine Option.isSome_iff_ne_none.mpr fun hnone => ?_
    rw [escape_eq_none_of_left hnone] at hc
    cases hc
  · refine Option.isSome_iff_ne_none.mpr fun hnone => ?_
    rw [escape_eq_none_of_right hnone] at hc
    cases hc

/-! ### Writing and reading -/

variable {special}

theorem encode_cons (b : UInt8) (s : List UInt8) :
    encode special (b :: s) = write special b ++ encode special s := rfl

theorem write_of_not {b : UInt8} (hb : special b = false) : write special b = [b] := by
  rw [write, hb]
  rfl

theorem write_of_special {b : UInt8} (hb : special b = true) :
    write special b = [sign, hexDigit (b.toNat / 16), hexDigit (b.toNat % 16)] := by
  rw [write, hb]
  rfl

theorem exists_encode_cons (special : UInt8 → Bool) (b : UInt8) (s : List UInt8) :
    (special b = false ∧ encode special (b :: s) = b :: encode special s) ∨
      ∃ rest, encode special (b :: s) = sign :: rest := by
  rcases hb : special b with _ | _
  · left
    exact ⟨rfl, by rw [encode_cons, write_of_not hb]; rfl⟩
  · right
    exact ⟨_, by rw [encode_cons, write_of_special hb]; rfl⟩

theorem escape_encode_eq_none {s : List UInt8}
    (hs : ∀ h l rest, s = h :: l :: rest → escape h l = none) {h l : UInt8} {rest : List UInt8}
    (heq : encode special s = h :: l :: rest) : escape h l = none := by
  rcases s with _ | ⟨h', s⟩
  · cases heq
  · rcases exists_encode_cons special h' s with ⟨-, hcons⟩ | ⟨_, hcons⟩
    · rw [hcons] at heq
      obtain ⟨rfl, htail⟩ := List.cons.inj heq
      rcases s with _ | ⟨l', s⟩
      · cases htail
      · rcases exists_encode_cons special l' s with ⟨-, hcons⟩ | ⟨_, hcons⟩
        · rw [hcons] at htail
          obtain ⟨rfl, -⟩ := List.cons.inj htail
          exact hs _ _ _ rfl
        · rw [hcons] at htail
          obtain ⟨rfl, -⟩ := List.cons.inj htail
          exact escape_eq_none_of_right hexVal_sign h'
    · rw [hcons] at heq
      obtain ⟨rfl, -⟩ := List.cons.inj heq
      exact escape_eq_none_of_left hexVal_sign l

/-- **Writing does not change what is read**, when percent signs and digits are written as they
are. -/
theorem decode_encode (hsign : special sign = false)
    (hdigits : ∀ b, (hexVal b).isSome → special b = false) :
    ∀ s : List UInt8, decode (encode special s) = decode s
  | [] => rfl
  | b :: s => by
    rcases hb : special b with _ | _
    · rw [encode_cons, write_of_not hb, List.singleton_append]
      rcases eq_or_ne b sign with rfl | hne
      · by_cases hesc : ∃ h l rest c, s = h :: l :: rest ∧ escape h l = some c
        · obtain ⟨h, l, rest, c, rfl, hc⟩ := hesc
          obtain ⟨hh, hl⟩ := hexVal_of_escape hc
          have hrest : encode special (h :: l :: rest) = h :: l :: encode special rest := by
            rw [encode_cons, encode_cons, write_of_not (hdigits h hh), write_of_not (hdigits l hl)]
            rfl
          rw [hrest, decode_escape hc, decode_escape hc, decode_encode hsign hdigits rest]
        · have hnone : ∀ h l rest, s = h :: l :: rest → escape h l = none := by
            intro h l rest heq
            refine Option.eq_none_iff_forall_ne_some.mpr fun c hc => ?_
            exact hesc ⟨h, l, rest, c, heq, hc⟩
          rw [decode_sign hnone, decode_sign fun h l rest heq => escape_encode_eq_none hnone heq,
            decode_encode hsign hdigits s]
      · rw [decode_cons_of_ne hne, decode_cons_of_ne hne, decode_encode hsign hdigits s]
    · have hne : b ≠ sign := by
        rintro rfl
        rw [hsign] at hb
        cases hb
      rw [encode_cons, write_of_special hb, decode_cons_of_ne hne]
      refine (decode_escape (escape_hexDigit b) _).trans ?_
      exact congrArg (b :: ·) (decode_encode hsign hdigits s)
termination_by s => s.length

theorem spells_of_sign_notMem : ∀ {s : List UInt8}, sign ∉ decode s → Spells s (decode s)
  | [], _ => .nil
  | b :: s, hsign => by
    rcases eq_or_ne b sign with rfl | hne
    · -- a percent sign that comes out is excluded, so that it begins an escape
      by_cases hesc : ∃ h l rest c, s = h :: l :: rest ∧ escape h l = some c
      · obtain ⟨h, l, rest, c, rfl, hc⟩ := hesc
        rw [decode_escape hc] at hsign ⊢
        exact .escape hc (spells_of_sign_notMem fun hmem => hsign (List.mem_cons_of_mem _ hmem))
      · refine absurd (sign_mem_decode fun h l rest heq => ?_) hsign
        refine Option.eq_none_iff_forall_ne_some.mpr fun c hc => ?_
        exact hesc ⟨h, l, rest, c, heq, hc⟩
    · rw [decode_cons_of_ne hne] at hsign ⊢
      exact .byte hne (spells_of_sign_notMem fun hmem => hsign (List.mem_cons_of_mem _ hmem))
termination_by s => s.length

/-- **What is read without percent signs and special bytes was spelled so**, when percent signs and
digits are written as they are. -/
theorem spells_of_decode_encode (hsign : special sign = false)
    (hdigits : ∀ b, (hexVal b).isSome → special b = false) {s : List UInt8}
    (hall : ∀ b ∈ decode (encode special s), b ≠ sign ∧ special b = false) :
    Spells s (decode (encode special s)) := by
  rw [decode_encode hsign hdigits] at hall ⊢
  exact spells_of_sign_notMem fun hmem => (hall sign hmem).1 rfl

theorem eq_of_encode_eq : ∀ {s w : List UInt8}, encode special s = w → sign ∉ w → s = w
  | [], _, rfl, _ => rfl
  | b :: s, w, h, hw => by
    rcases exists_encode_cons special b s with ⟨-, hcons⟩ | ⟨_, hcons⟩
    · rw [hcons] at h
      subst h
      rw [List.mem_cons, not_or] at hw
      exact congrArg _ (eq_of_encode_eq rfl hw.2)
    · rw [hcons] at h
      subst h
      exact absurd List.mem_cons_self hw

theorem not_mem_encode {c : UInt8} (hc : c ≠ sign) (hdigit : ∀ d < 16, c ≠ hexDigit d)
    {s : List UInt8} (hs : c ∉ s) : c ∉ encode special s := by
  intro hmem
  obtain ⟨b, hb, hcb⟩ := List.mem_flatMap.mp hmem
  rcases hspecial : special b with _ | _
  · rw [write_of_not hspecial, List.mem_singleton] at hcb
    exact hs (hcb ▸ hb)
  · have hlt : b.toNat < 256 := b.toNat_lt
    rw [write_of_special hspecial] at hcb
    simp only [List.mem_cons, List.not_mem_nil, or_false] at hcb
    rcases hcb with h | h | h
    · exact hc h
    · exact hdigit _ (by omega) h
    · exact hdigit _ (by omega) h

theorem encode_join {sep : UInt8} (hsep : special sep = false) : ∀ ws : List (List UInt8),
    encode special (Words.join sep ws) = Words.join sep (ws.map (encode special))
  | [] => rfl
  | [w] => by rw [List.map_singleton, Words.join_singleton, Words.join_singleton]
  | w :: v :: ws => by
    have ih := encode_join hsep (v :: ws)
    rw [List.map_cons] at ih
    rw [List.map_cons, List.map_cons, Words.join_cons_cons, Words.join_cons_cons, ← ih, encode,
      List.flatMap_append, List.flatMap_cons, write_of_not hsep]
    rfl

/-! ### Strict reading -/

/-- **Every percent sign begins an escape.** -/
def Escaped (s : List UInt8) : Prop :=
  ∀ before after, s = before ++ sign :: after →
    ∃ h l rest, after = h :: l :: rest ∧ (escape h l).isSome

theorem escaped_nil : Escaped [] := by
  intro before after h
  rcases before with _ | ⟨_, _⟩
  · cases h
  · cases h

theorem escaped_cons_of_ne {b : UInt8} (hb : b ≠ sign) {s : List UInt8} :
    Escaped (b :: s) ↔ Escaped s := by
  constructor
  · intro h before after heq
    exact h (b :: before) after (by rw [heq, List.cons_append])
  · intro h before after heq
    rcases before with _ | ⟨b', before⟩
    · exact absurd (List.cons.inj heq).1 hb
    · exact h before after (List.cons.inj heq).2

theorem escaped_escape {h l c : UInt8} (hc : escape h l = some c) {s : List UInt8} :
    Escaped (sign :: h :: l :: s) ↔ Escaped s := by
  have hne : ∀ b, (hexVal b).isSome → b ≠ sign := by
    rintro b hb rfl
    exact absurd hb (by decide)
  obtain ⟨hh, hl⟩ := hexVal_of_escape hc
  have htail : Escaped (h :: l :: s) ↔ Escaped s :=
    (escaped_cons_of_ne (hne h hh)).trans (escaped_cons_of_ne (hne l hl))
  refine Iff.trans ?_ htail
  constructor
  · intro hall before after heq
    exact hall (sign :: before) after (by rw [heq, List.cons_append])
  · intro hall before after heq
    rcases before with _ | ⟨_, before⟩
    · obtain rfl := (List.cons.inj heq).2
      exact ⟨h, l, s, rfl, by rw [hc]; rfl⟩
    · exact hall before after (List.cons.inj heq).2

theorem spells_cons_of_ne {b : UInt8} (hb : b ≠ sign) {s w : List UInt8} :
    Spells (b :: s) w ↔ ∃ v, Spells s v ∧ w = b :: v := by
  constructor
  · intro h
    cases h with
    | byte _ hs => exact ⟨_, hs, rfl⟩
    | escape _ _ => exact absurd rfl hb
  · rintro ⟨v, hs, rfl⟩
    exact .byte hb hs

theorem spells_escape {h l : UInt8} {s w : List UInt8} :
    Spells (sign :: h :: l :: s) w ↔ ∃ c v, escape h l = some c ∧ Spells s v ∧ w = c :: v := by
  constructor
  · intro hspells
    cases hspells with
    | byte hb _ => exact absurd rfl hb
    | escape hc hs => exact ⟨_, _, hc, hs, rfl⟩
  · rintro ⟨c, v, hc, hs, rfl⟩
    exact .escape hc hs

theorem not_spells_of_short {s w : List UInt8} (hs : s.length < 2) : ¬ Spells (sign :: s) w := by
  intro h
  cases h with
  | byte hb _ => exact absurd rfl hb
  | escape _ _ => exact absurd hs (by simp)

theorem spells_decode : ∀ {s : List UInt8}, Escaped s → Spells s (decode s)
  | [], _ => .nil
  | b :: s, hescaped => by
    rcases eq_or_ne b sign with rfl | hne
    · obtain ⟨h, l, rest, rfl, hsome⟩ := hescaped [] s rfl
      obtain ⟨c, hc⟩ := Option.isSome_iff_exists.mp hsome
      rw [decode_escape hc]
      exact .escape hc (spells_decode ((escaped_escape hc).mp hescaped))
    · rw [decode_cons_of_ne hne]
      exact .byte hne (spells_decode ((escaped_cons_of_ne hne).mp hescaped))
termination_by s => s.length

/-- **What is spelled** is what is read from a text in which every percent sign begins an escape. -/
theorem spells_iff {s w : List UInt8} : Spells s w ↔ Escaped s ∧ decode s = w := by
  constructor
  · intro h
    induction h with
    | nil => exact ⟨escaped_nil, rfl⟩
    | byte hb _ ih => exact ⟨(escaped_cons_of_ne hb).mpr ih.1, by rw [decode_cons_of_ne hb, ih.2]⟩
    | escape hc _ ih => exact ⟨(escaped_escape hc).mpr ih.1, by rw [decode_escape hc, ih.2]⟩
  · rintro ⟨hescaped, rfl⟩
    exact spells_decode hescaped

/-- **What is written, is read again**, when percent signs are written as escapes. -/
theorem spells_encode (hsign : special sign = true) :
    ∀ w : List UInt8, Spells (encode special w) w
  | [] => .nil
  | b :: w => by
    rcases hb : special b with _ | _
    · rw [encode_cons, write_of_not hb]
      refine .byte ?_ (spells_encode hsign w)
      rintro rfl
      rw [hsign] at hb
      cases hb
    · rw [encode_cons, write_of_special hb]
      exact .escape (escape_hexDigit b) (spells_encode hsign w)

end EmeraldExchange.Percent
