import Mathlib.Data.UInt

/-!
# UTF-8

A text is written as the bytes of its characters, and read back
(`decode_encode`).

With replacement, bytes are read as UTF-8, and each maximal part of a character that is not
completed is read as one replacement character: what `String::from_utf8_lossy` does. On bytes that
are UTF-8 it is the decoding, so it stands for the strict reading too where both lead to the same
text.

A byte below `0x80` is a character of its own and never part of another, so that a text may
be cut before it and the parts read alone (`lossy_append`).
-/

namespace EmeraldExchange.Utf8

def encode (cs : List Char) : List UInt8 := cs.flatMap String.utf8EncodeChar

def decode (bytes : List UInt8) : Option (List Char) :=
  bytes.toByteArray.utf8Decode?.map Array.toList

/-- **What is encoded is decoded.** -/
theorem decode_encode (cs : List Char) : decode (encode cs) = some cs := by
  show cs.utf8Encode.utf8Decode?.map Array.toList = some cs
  rw [List.utf8Decode?_utf8Encode]
  rfl

/-- A character below `0x80` is one byte. -/
theorem encodeChar_of_lt {c : Char} (h : c.toNat < 0x80) :
    String.utf8EncodeChar c = [UInt8.ofNat c.toNat] :=
  if_pos (Nat.le_of_lt_succ h)

/-- **What is decoded is encoded.** -/
theorem encode_of_decode {bytes : List UInt8} {cs : List Char} (h : decode bytes = some cs) :
    encode cs = bytes := by
  obtain ⟨chars, hchars, rfl⟩ := Option.map_eq_some_iff.mp h
  have hsome : bytes.toByteArray.utf8Decode?.isSome := hchars ▸ rfl
  have hencode := ByteArray.utf8Encode_get_utf8Decode? (b := bytes.toByteArray) (h := hsome)
  simp only [hchars, Option.get_some] at hencode
  have hdata : (encode chars.toList).toByteArray.data = bytes.toByteArray.data :=
    congrArg ByteArray.data hencode
  rw [List.data_toByteArray, List.data_toByteArray] at hdata
  exact congrArg Array.toList hdata

theorem encode_injective : Function.Injective encode := by
  intro cs cs' h
  have hdecode := decode_encode cs
  rw [h, decode_encode cs'] at hdecode
  exact (Option.some.inj hdecode).symm

/-! ### Cutting a text -/

theorem encode_cons (c : Char) (s : List Char) :
    encode (c :: s) = String.utf8EncodeChar c ++ encode s := rfl

theorem encode_append (s t : List Char) : encode (s ++ t) = encode s ++ encode t :=
  List.flatMap_append

theorem length_encode_cons (c : Char) (s : List Char) :
    (encode (c :: s)).length = c.utf8Size + (encode s).length := by
  rw [encode_cons, List.length_append, String.length_utf8EncodeChar]

/-- The parts of a text before and after a byte, if it is the first one of a character. -/
def cutAt : List Char → ℕ → Option (List Char × List Char)
  | s, 0 => some ([], s)
  | [], _ + 1 => none
  | c :: s, n + 1 =>
    if c.utf8Size ≤ n + 1 then (cutAt s (n + 1 - c.utf8Size)).map fun p => (c :: p.1, p.2)
    else none

theorem cutAt_zero (s : List Char) : cutAt s 0 = some ([], s) := by
  cases s <;> rfl

/-- **A text is cut where its first part ends.** -/
theorem cutAt_eq_some {s x y : List Char} {n : ℕ} :
    cutAt s n = some (x, y) ↔ s = x ++ y ∧ (encode x).length = n := by
  induction s generalizing x n with
  | nil =>
    constructor
    · intro h
      cases n with
      | zero =>
        cases h
        exact ⟨rfl, rfl⟩
      | succ n => cases h
    · rintro ⟨h, rfl⟩
      obtain ⟨rfl, rfl⟩ := List.append_eq_nil_iff.mp h.symm
      rfl
  | cons c s ih =>
    have hpos := c.utf8Size_pos
    cases x with
    | nil =>
      constructor
      · intro h
        cases n with
        | zero =>
          rw [cutAt_zero] at h
          exact ⟨(Prod.mk.inj (Option.some.inj h)).2, rfl⟩
        | succ n =>
          -- a cut behind the first character has this in its first part
          rw [cutAt] at h
          split_ifs at h
          obtain ⟨p, -, hp⟩ := Option.map_eq_some_iff.mp h
          cases hp
      · rintro ⟨rfl, rfl⟩
        exact cutAt_zero _
    | cons c' x =>
      rw [length_encode_cons]
      cases n with
      | zero =>
        rw [cutAt_zero]
        have := c'.utf8Size_pos
        exact ⟨fun h => (by cases h), fun h => by omega⟩
      | succ n =>
        rw [cutAt]
        constructor
        · intro h
          split_ifs at h with hle
          obtain ⟨p, hp, heq⟩ := Option.map_eq_some_iff.mp h
          obtain ⟨hx, rfl⟩ := Prod.mk.inj heq
          obtain ⟨rfl, rfl⟩ := List.cons.inj hx
          obtain ⟨rfl, hlen⟩ := ih.mp hp
          exact ⟨rfl, by omega⟩
        · rintro ⟨h, hn⟩
          obtain ⟨rfl, rfl⟩ := List.cons.inj h
          rw [if_pos (by omega), ih.mpr ⟨rfl, by omega⟩]
          rfl

/-- A byte below `0x80` at the front of a text is a character. -/
theorem exists_of_encode {s : List Char} {b : UInt8} {bytes : List UInt8}
    (h : encode s = b :: bytes) (hb : b < 0x80) :
    ∃ c t, s = c :: t ∧ c.toNat = b.toNat ∧ encode t = bytes := by
  cases s with
  | nil => cases h
  | cons c t =>
    by_cases hc : c.toNat < 0x80
    · rw [encode_cons, encodeChar_of_lt hc] at h
      obtain ⟨rfl, rfl⟩ := List.cons.inj h
      refine ⟨c, t, rfl, ?_, rfl⟩
      rw [UInt8.toNat_ofNat']
      omega
    · -- the first of several bytes is at least `0xc0`
      exfalso
      have hfirst : ∀ v k : ℕ, 0x80 ≤ k → v + k < 256 → ¬UInt8.ofNat (v + k) < 0x80 := by
        intro v k hk hlt hlow
        have hnat := UInt8.lt_iff_toNat_lt.mp hlow
        rw [UInt8.toNat_ofNat_of_lt' hlt] at hnat
        exact absurd hnat (by simp; omega)
      rw [encode_cons, String.utf8EncodeChar] at h
      rw [if_neg (show ¬c.val.toNat ≤ 127 from fun hle => hc (Nat.lt_succ_of_le hle))] at h
      split_ifs at h
      · obtain ⟨rfl, -⟩ := List.cons.inj h
        exact hfirst _ _ (by omega) (by omega) hb
      · obtain ⟨rfl, -⟩ := List.cons.inj h
        exact hfirst _ _ (by omega) (by omega) hb
      · obtain ⟨rfl, -⟩ := List.cons.inj h
        exact hfirst _ _ (by omega) (by omega) hb

/-- **Characters below `0x80` are found as bytes.** -/
theorem exists_prefix_of_encode {s : List Char} {bytes rest : List UInt8}
    (hs : encode s = bytes ++ rest) (hlt : ∀ b ∈ bytes, b < 0x80) :
    ∃ x y, s = x ++ y ∧ x.map Char.toNat = bytes.map UInt8.toNat ∧ encode y = rest := by
  induction bytes generalizing s with
  | nil => exact ⟨[], s, rfl, rfl, hs⟩
  | cons b bytes ih =>
    obtain ⟨c, t, rfl, hc, ht⟩ := exists_of_encode hs (hlt b List.mem_cons_self)
    obtain ⟨x, y, rfl, hx, hy⟩ := ih ht fun b' hb' => hlt b' (List.mem_cons_of_mem _ hb')
    exact ⟨c :: x, y, rfl, by rw [List.map_cons, List.map_cons, hc, hx], hy⟩

/-- Characters below `0x80` are as many bytes. -/
theorem encode_ascii {s : List Char} (h : ∀ c ∈ s, c.toNat < 0x80) :
    encode s = s.map fun c => UInt8.ofNat c.toNat := by
  induction s with
  | nil => rfl
  | cons c s ih =>
    rw [encode_cons, encodeChar_of_lt (h c List.mem_cons_self),
      ih fun c' hc' => h c' (List.mem_cons_of_mem _ hc')]
    rfl

/-! ### With replacement -/

def replacement : Char := '\ufffd'

/-- What a leading byte announces: how many bytes follow, between which bounds the first of
them lies, and the byte's own share of the character. -/
def lead (b : UInt8) : Option (ℕ × UInt8 × UInt8 × ℕ) :=
  if 0xc2 ≤ b ∧ b ≤ 0xdf then some (1, 0x80, 0xbf, b.toNat - 0xc0)
  else if b = 0xe0 then some (2, 0xa0, 0xbf, 0)
  else if b = 0xed then some (2, 0x80, 0x9f, 0xd)
  else if 0xe1 ≤ b ∧ b ≤ 0xef then some (2, 0x80, 0xbf, b.toNat - 0xe0)
  else if b = 0xf0 then some (3, 0x90, 0xbf, 0)
  else if 0xf1 ≤ b ∧ b ≤ 0xf3 then some (3, 0x80, 0xbf, b.toNat - 0xf0)
  else if b = 0xf4 then some (3, 0x80, 0x8f, 4)
  else none

/-- Read `n` more bytes of a character, the first between `lo` and `hi`. -/
def follow : ℕ → UInt8 → UInt8 → ℕ → List UInt8 → Char × List UInt8
  | 0, _, _, acc, bytes => (Char.ofNat acc, bytes)
  | _ + 1, _, _, _, [] => (replacement, [])
  | n + 1, lo, hi, acc, b :: bytes =>
    if lo ≤ b ∧ b ≤ hi then follow n 0x80 0xbf (acc * 64 + (b.toNat - 0x80)) bytes
    else (replacement, b :: bytes)

def char (b : UInt8) (bytes : List UInt8) : Char × List UInt8 :=
  if b < 0x80 then (Char.ofNat b.toNat, bytes)
  else match lead b with
    | some (n, lo, hi, acc) => follow n lo hi acc bytes
    | none => (replacement, bytes)

/-- Read at most `n` characters. -/
def lossyAux : ℕ → List UInt8 → List Char
  | _, [] => []
  | 0, _ :: _ => []
  | n + 1, b :: bytes => (char b bytes).1 :: lossyAux n (char b bytes).2

/-- **Read bytes as UTF-8**, with replacement. -/
def lossy (bytes : List UInt8) : List Char := lossyAux bytes.length bytes

theorem length_follow_le (n : ℕ) (lo hi : UInt8) (acc : ℕ) (bytes : List UInt8) :
    (follow n lo hi acc bytes).2.length ≤ bytes.length := by
  induction bytes generalizing n lo hi acc with
  | nil => cases n <;> simp [follow]
  | cons b bytes ih =>
    cases n with
    | zero => simp [follow]
    | succ n =>
      unfold follow
      split
      · exact (ih _ _ _ _).trans (by simp)
      · exact le_rfl

theorem length_char_le (b : UInt8) (bytes : List UInt8) :
    (char b bytes).2.length ≤ bytes.length := by
  unfold char
  split
  · exact le_rfl
  · split
    · exact length_follow_le ..
    · exact le_rfl

theorem lossyAux_of_length_le {n : ℕ} {bytes : List UInt8} (h : bytes.length ≤ n) :
    lossyAux n bytes = lossy bytes := by
  have hsame : ∀ (n m : ℕ) (bytes : List UInt8), bytes.length ≤ n → bytes.length ≤ m →
      lossyAux n bytes = lossyAux m bytes := by
    intro n
    induction n with
    | zero =>
      intro m bytes hn _
      obtain rfl := List.length_eq_zero_iff.mp (Nat.le_zero.mp hn)
      cases m <;> rfl
    | succ n ih =>
      intro m bytes hn hm
      cases bytes with
      | nil => cases m <;> rfl
      | cons b bytes =>
        cases m with
        | zero => simp at hm
        | succ m =>
          have hle := length_char_le b bytes
          simp only [List.length_cons] at hn hm
          simp only [lossyAux]
          rw [ih m (char b bytes).2 (by omega) (by omega)]
  exact hsame n bytes.length bytes h le_rfl

@[simp] theorem lossy_nil : lossy [] = [] := rfl

theorem lossy_cons (b : UInt8) (bytes : List UInt8) :
    lossy (b :: bytes) = (char b bytes).1 :: lossy (char b bytes).2 := by
  rw [lossy, List.length_cons, lossyAux, lossyAux_of_length_le (length_char_le b bytes)]

/-- A byte below `0x80` is a character. -/
theorem lossy_cons_ascii {b : UInt8} (hb : b < 0x80) (bytes : List UInt8) :
    lossy (b :: bytes) = Char.ofNat b.toNat :: lossy bytes := by
  rw [lossy_cons, char, if_pos hb]

/-- Bytes below `0x80` are a text of their own. -/
theorem lossy_ascii_append {bytes : List UInt8} (h : ∀ b ∈ bytes, b < 0x80)
    (rest : List UInt8) :
    lossy (bytes ++ rest) = bytes.map (fun b => Char.ofNat b.toNat) ++ lossy rest := by
  induction bytes with
  | nil => rfl
  | cons b bytes ih =>
    rw [List.cons_append, lossy_cons_ascii (h b List.mem_cons_self),
      ih fun c hc => h c (List.mem_cons_of_mem b hc)]
    rfl

/-- What follows a character does not run over a byte below `0x80`. -/
theorem follow_append {n : ℕ} {lo hi : UInt8} {acc : ℕ} {b : UInt8} (hb : b < 0x80)
    (hlo : 0x80 ≤ lo) (bytes rest : List UInt8) :
    follow n lo hi acc (bytes ++ b :: rest) =
      ((follow n lo hi acc bytes).1, (follow n lo hi acc bytes).2 ++ b :: rest) := by
  induction bytes generalizing n lo hi acc with
  | nil =>
    cases n with
    | zero => rfl
    | succ n =>
      have hnot : ¬ (lo ≤ b ∧ b ≤ hi) := fun h =>
        absurd (UInt8.lt_of_lt_of_le hb (UInt8.le_trans hlo h.1)) (UInt8.lt_irrefl b)
      simp [follow, hnot]
  | cons c bytes ih =>
    cases n with
    | zero => rfl
    | succ n =>
      by_cases hc : lo ≤ c ∧ c ≤ hi
      · simp only [List.cons_append, follow, hc, and_self, if_true]
        exact ih (by decide)
      · simp [follow, hc]

theorem lead_lo {b : UInt8} {n : ℕ} {lo hi : UInt8} {acc : ℕ}
    (h : lead b = some (n, lo, hi, acc)) : 0x80 ≤ lo := by
  unfold lead at h
  repeat' split at h
  all_goals first
    | cases h; done
    | (obtain ⟨-, rfl, -, -⟩ : _ = n ∧ _ = lo ∧ _ = hi ∧ _ = acc := by simpa using h
       decide)

theorem char_append {c b : UInt8} (hb : b < 0x80) (bytes rest : List UInt8) :
    char c (bytes ++ b :: rest) = ((char c bytes).1, (char c bytes).2 ++ b :: rest) := by
  unfold char
  split
  · rfl
  · split
    · next hlead => exact follow_append hb (lead_lo hlead) bytes rest
    · rfl

/-- **A text may be cut before a byte below `0x80`.** -/
theorem lossy_append {b : UInt8} (hb : b < 0x80) (bytes rest : List UInt8) :
    lossy (bytes ++ b :: rest) = lossy bytes ++ lossy (b :: rest) := by
  induction h : bytes.length using Nat.strong_induction_on generalizing bytes with
  | _ n ih =>
    cases bytes with
    | nil => rfl
    | cons c bytes =>
      have hlt : (char c bytes).2.length < n := by
        have hle := length_char_le c bytes
        simp only [List.length_cons] at h
        omega
      rw [List.cons_append, lossy_cons, lossy_cons c bytes, char_append hb, List.cons_append,
        ih _ hlt _ rfl]

/-- A text that ends with bytes below `0x80` is read with their characters at its end. -/
theorem lossy_append_ascii {mark : List UInt8} (h : ∀ b ∈ mark, b < 0x80) (x : List UInt8) :
    lossy (x ++ mark) = lossy x ++ mark.map fun b => Char.ofNat b.toNat := by
  cases mark with
  | nil => simp
  | cons b mark =>
    have hmark := lossy_ascii_append h []
    rw [List.append_nil, lossy_nil, List.append_nil] at hmark
    rw [lossy_append (h b List.mem_cons_self), hmark]

/-- **A text may be cut after a byte below `0x80`.** -/
theorem lossy_append_of_ascii {mark : List UInt8} (h : ∀ b ∈ mark, b < 0x80) (hne : mark ≠ [])
    (x rest : List UInt8) : lossy (x ++ mark ++ rest) = lossy (x ++ mark) ++ lossy rest := by
  obtain ⟨b, mark, rfl⟩ := List.exists_cons_of_ne_nil hne
  have hcut := lossy_append (h b List.mem_cons_self) x (mark ++ rest)
  have hmark := lossy_ascii_append h rest
  rw [List.cons_append] at hmark
  rw [List.append_assoc, List.cons_append, hcut, hmark, lossy_append_ascii h,
    List.append_assoc]

end EmeraldExchange.Utf8
