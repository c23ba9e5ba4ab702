import EmeraldExchange.Iptv.Xmltv
import EmeraldExchange.Lib.Pattern

/-!
# The channel sniffer

The channels of a feed are not read from the events of the reader: they are found in the raw
bytes, by a regular expression. The bytes come in parts, and what is not yet a whole channel is
kept in a buffer until the next part is there. Of what follows the last channel found the buffer
keeps what begins with the last `<channel` of it, or else sixteen bytes, and in any case no more
than a megabyte.

A match of the expression may be cut by the end of a part. Then the channel is found all the
same, if the beginning of the match has no match of its own, holds no further `<channel`, and
is no longer than the buffer (`stream_channelRe`).
-/

namespace EmeraldExchange.Iptv

/-! ### The expressions -/

/-- The characters of words, for a boundary. -/
def word (b : UInt8) : Bool :=
  (0x30 ≤ b && b ≤ 0x39) || (0x41 ≤ b && b ≤ 0x5a) || b = 0x5f || (0x61 ≤ b && b ≤ 0x7a)

def allBut (c : Char) (b : UInt8) : Bool := b ≠ UInt8.ofNat c.toNat

/-- `<channel`. -/
def channelOpen : List UInt8 := ascii "<channel"

open Pattern in
/-- `(?s-u)<channel\b[^>]*\bid="([^"]+)"[^>]*>(.*?)</channel>`. -/
def channelItems : List (Item UInt8) :=
  literal channelOpen ++
    (.boundary :: .many (allBut '>') false true false :: .boundary :: literal (ascii "id=\"") ++
      (.many (allBut '"') true true true :: literal (ascii "\"") ++
        (.many (allBut '>') false true false :: literal (ascii ">") ++
          (.many (fun _ => true) false false true :: literal channelEnd))))

open Pattern in
/-- `(?-u)<display-name[^>]*>([^<]+)</display-name>`. -/
def displayNameItems : List (Item UInt8) :=
  literal (ascii "<display-name") ++
    (.many (allBut '>') false true false :: literal (ascii ">") ++
      (.many (allBut '<') true true true :: literal (ascii "</display-name>")))

def channelRe : Matcher UInt8 (List (List UInt8)) :=
  Pattern.matcher word channelItems (by decide) (by decide)

def displayNameRe : Matcher UInt8 (List (List UInt8)) :=
  Pattern.matcher word displayNameItems (by decide) (by decide)

/-- The names in the body of a channel: trimmed, and none of them empty. -/
def displayNames (body : List UInt8) : List String :=
  (((displayNameRe.spans body).map fun sp => trim (Utf8.lossy (sp.value.getD 0 []))).filter
    (· ≠ [])).map String.ofList

def channelDef (groups : List (List UInt8)) : ChannelDef :=
  ⟨String.ofList (Utf8.lossy (groups.getD 0 [])), displayNames (groups.getD 1 [])⟩

/-! ### The buffer -/

def sniffBufMax : ℕ := 1000000

def rfind (needle : List UInt8) : List UInt8 → Option ℕ
  | [] => if needle = [] then some 0 else none
  | b :: s =>
    match rfind needle s with
    | some i => some (i + 1)
    | none => if needle.isPrefixOf (b :: s) then some 0 else none

/-- What is kept of what follows the last channel: a trailing partial one, or a short carry for a
tag split across chunks. -/
def carry (buf : List UInt8) : List UInt8 :=
  let buf :=
    match rfind channelOpen buf with
    | none => buf.drop (buf.length - 16)
    | some i => buf.drop i
  buf.drop (buf.length - sniffBufMax)

/-- **Sniff channels**: the buffer after it, and the channels found. -/
def sniffChannels (buf : List UInt8) : List UInt8 × List ChannelDef :=
  let found := channelRe.spans buf
  (carry (buf.drop (endOf 0 found)), found.map fun sp => channelDef sp.value)

/-- The beginning of a match is kept: it has no match of its own, holds no further `<channel`, and
is no longer than the buffer. -/
def HeadKept (head : List UInt8) : Prop :=
  channelRe.free head = true ∧ rfind channelOpen head.tail = none ∧ head.length ≤ sniffBufMax

/-- **The ends of the parts of a text are harmless**: each match that one of them cuts is kept. -/
def ChannelsKept (parts : List (List UInt8)) : Prop :=
  ∀ before ∈ parts.inits, ∀ sp ∈ channelRe.spans parts.flatten,
    sp.start < before.flatten.length → before.flatten.length < sp.stop →
    HeadKept ((parts.flatten.drop sp.start).take (before.flatten.length - sp.start))

instance (head : List UInt8) : Decidable (HeadKept head) :=
  inferInstanceAs (Decidable (_ ∧ _ ∧ _))

instance (parts : List (List UInt8)) : Decidable (ChannelsKept parts) :=
  inferInstanceAs (Decidable (∀ before ∈ parts.inits, ∀ sp ∈ channelRe.spans parts.flatten,
    sp.start < before.flatten.length → before.flatten.length < sp.stop →
    HeadKept ((parts.flatten.drop sp.start).take (before.flatten.length - sp.start))))

/-! ### What is kept -/

theorem rfind_append {needle s : List UInt8} {i : ℕ} (h : rfind needle s = some i)
    (u : List UInt8) : rfind needle (u ++ s) = some (u.length + i) := by
  induction u with
  | nil => simpa using h
  | cons b u ih =>
    rw [List.cons_append, rfind, ih, List.length_cons]
    simp only [Option.some.injEq]
    omega

theorem rfind_eq_some {needle s : List UInt8} {i : ℕ} (h : rfind needle s = some i) :
    ∃ pre post, s = pre ++ needle ++ post ∧ pre.length = i := by
  induction s generalizing i with
  | nil =>
    obtain ⟨rfl, rfl⟩ : needle = [] ∧ 0 = i := by simpa [rfind] using h
    exact ⟨[], [], rfl, rfl⟩
  | cons b s ih =>
    unfold rfind at h
    split at h
    · next hrest =>
      obtain rfl := Option.some.inj h
      obtain ⟨pre, post, rfl, rfl⟩ := ih hrest
      exact ⟨b :: pre, post, rfl, rfl⟩
    · split at h
      · next hprefix =>
        obtain ⟨post, hpost⟩ := List.isPrefixOf_iff_prefix.mp hprefix
        obtain rfl := Option.some.inj h
        exact ⟨[], post, by simpa using hpost.symm, rfl⟩
      · cases h

theorem carry_suffix (buf : List UInt8) : carry buf <:+ buf := by
  unfold carry
  simp only
  split
  · exact (List.drop_suffix _ _).trans (List.drop_suffix _ _)
  · exact (List.drop_suffix _ _).trans (List.drop_suffix _ _)

theorem length_carry {buf : List UInt8} {n k : ℕ} (hn : n ≤ sniffBufMax) (hlen : k + n ≤ buf.length)
    (h : ∀ i, rfind channelOpen buf = some i → i ≤ k)
    (hnone : rfind channelOpen buf = none → n ≤ 16) :
    n ≤ (carry buf).length := by
  unfold carry
  simp only [List.length_drop]
  split
  · next hrfind =>
    have hle := hnone hrfind
    simp only [List.length_drop]
    omega
  · next i hrfind =>
    have hle := h i hrfind
    simp only [List.length_drop]
    omega

/-- A match begins with `<channel`. -/
theorem begins_of_next {s rest : List UInt8} {x : List (List UInt8)}
    (h : channelRe.next s = some (x, rest)) : channelOpen <+: s :=
  Pattern.literal_prefix h

/-- The only `<channel` of such a beginning is where it begins. -/
theorem rfind_head {head rest rest' : List UInt8} {x : List (List UInt8)}
    (hlen : channelOpen.length ≤ head.length)
    (hmatch : channelRe.next (head ++ rest) = some (x, rest'))
    (hlast : rfind channelOpen head.tail = none) : rfind channelOpen head = some 0 := by
  have hprefix : channelOpen <+: head :=
    List.prefix_of_prefix_length_le (begins_of_next hmatch) (List.prefix_append _ _) hlen
  cases head with
  | nil => cases hlen
  | cons b head =>
    rw [List.tail_cons] at hlast
    rw [rfind, hlast]
    simp only [List.isPrefixOf_iff_prefix.mpr hprefix, if_true]

/-- **The beginning of a match stays in the buffer.** -/
theorem kept_of_headKept {head rest rest' : List UInt8} {x : List (List UInt8)}
    (hmatch : channelRe.next (head ++ rest) = some (x, rest')) (h : HeadKept head) :
    channelRe.Kept carry head := by
  obtain ⟨hfree, hlast, hmax⟩ := h
  refine ⟨hfree, fun u => length_carry (k := u.length) hmax (by simp) (fun i hi => ?_)
    fun hnone => ?_⟩
  all_goals rcases lt_or_ge head.length channelOpen.length with hlt | hge
  · -- `<channel` is not yet there
    obtain ⟨pre, post, hsplit, rfl⟩ := rfind_eq_some hi
    have hlen := congrArg List.length hsplit
    simp only [List.length_append] at hlen
    omega
  · rw [rfind_append (rfind_head hge hmatch hlast)] at hi
    exact (Option.some.inj hi).ge
  · exact hlt.le.trans (by decide)
  · rw [rfind_append (rfind_head hge hmatch hlast)] at hnone
    cases hnone

/-- **The channels of a text that comes in parts are those of the whole**, if the ends of the parts
are harmless. -/
theorem stream_channelRe {parts : List (List UInt8)} (h : ChannelsKept parts) :
    channelRe.stream carry [] parts = (channelRe.spans parts.flatten).map Span.value := by
  refine Matcher.stream_eq carry_suffix 0 (s := parts.flatten) rfl rfl ?_
  intro before after hparts sp hsp hstart hstop
  rw [List.nil_append, Nat.zero_add] at hstart hstop ⊢
  rw [List.drop_zero] at hsp
  obtain ⟨-, -, -, hfound⟩ := Matcher.of_mem_spansAt hsp
  have hmem : before ∈ parts.inits := (List.mem_inits _ _).mpr ⟨after, hparts.symm⟩
  rw [Nat.sub_zero, ← List.take_append_drop (before.flatten.length - sp.start)
    (parts.flatten.drop sp.start)] at hfound
  exact kept_of_headKept hfound (h before hmem sp hsp hstart hstop)

end EmeraldExchange.Iptv
