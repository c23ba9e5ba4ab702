import EmeraldExchange.Lib.Percent
import EmeraldExchange.MediaCore.Router

/-!
# The path of a request to the media library

The edge resolves dot segments, in each of their spellings, before anything looks at a path. The
gates read all escapes of a path at once; the path that is forwarded is the one that came, except
that its writer turns some bytes into escapes and would resolve dot segments once more. Since the
edge leaves none (`noDots_normalizePath`), the router of the library sees
the segments that the gates have seen.
-/

namespace EmeraldExchange.Gateway

open MediaCore Words

/-! ### Dot segments -/

def backslash : UInt8 := 0x5c

def lowerByte (b : UInt8) : UInt8 := if 0x41 ≤ b.toNat ∧ b.toNat ≤ 0x5a then b + 0x20 else b

def single (s : List UInt8) : Bool := s = ascii "." || s.map lowerByte = ascii "%2e"

def double (s : List UInt8) : Bool :=
  s.map lowerByte ∈ [ascii "..", ascii ".%2e", ascii "%2e.", ascii "%2e%2e"]

def slashed (path : List UInt8) : List UInt8 :=
  path.map fun b => if b = backslash then slash else b

/-- The segments that are left, the last one first: two dots drop the one before, and dots at the
end leave an empty one. -/
def resolveSegments : List (List UInt8) → List (List UInt8) → List (List UInt8)
  | [], out => out
  | s :: rest, out =>
    if double s then
      if rest = [] then [] :: out.tail else resolveSegments rest out.tail
    else if single s then
      if rest = [] then [] :: out else resolveSegments rest out
    else resolveSegments rest (s :: out)

/-- The path without dot segments, where it has some and no backslashes. -/
def resolveDots (path : List UInt8) : Option (List UInt8) :=
  match path with
  | [] => none
  | b :: rest =>
    if b = slash then
      let segments := rest.splitOn slash
      if segments.any fun s => single s || double s then
        some (slash :: join slash (resolveSegments segments []).reverse)
      else none
    else none

/-- **The path without dot segments**, where it has to be changed. -/
def removeDotSegments (path : List UInt8) : Option (List UInt8) :=
  if backslash ∈ path then some ((resolveDots (slashed path)).getD (slashed path))
  else resolveDots path

/-- The path that everything behind the edge sees. -/
def normalizePath (path : List UInt8) : List UInt8 := (removeDotSegments path).getD path

/-- A path has dot segments, or backslashes in place of slashes that make some. -/
def hasDots (path : List UInt8) : Bool :=
  ((slashed path).splitOn slash).any fun s => single s || double s

/-! ### Reading and forwarding -/

/-- The byte of two digits, the first of which may also be a plus sign. -/
def fromStrRadix (h l : UInt8) : Option UInt8 :=
  if h = 0x2b then (Percent.hexVal l).map UInt8.ofNat else Percent.escape h l

/-- The bytes of a text with escapes, unless one is malformed. -/
def decodeBytes : List UInt8 → Option (List UInt8)
  | [] => some []
  | b :: h :: l :: rest =>
    if b = Percent.sign then do
      let c ← fromStrRadix h l
      let out ← decodeBytes rest
      some (c :: out)
    else (decodeBytes (h :: l :: rest)).map (b :: ·)
  | b :: rest => if b = Percent.sign then none else (decodeBytes rest).map (b :: ·)

/-- **`decodeURIComponent`** -/
def decodeUriComponent (s : List UInt8) : Option (List Char) := (decodeBytes s).bind Utf8.decode

/-- A byte of a word: a letter, a digit, or a sign. -/
def wordByte (b : UInt8) : Bool :=
  (0x30 ≤ b.toNat && b.toNat ≤ 0x39) || (0x41 ≤ b.toNat && b.toNat ≤ 0x5a) ||
    (0x61 ≤ b.toNat && b.toNat ≤ 0x7a) || b = 0x2b || b = 0x2d

/-- **How the HTTP client writes a path** that it is given: some bytes become escapes, but letters,
digits, signs, slashes and percent signs do not, and dot segments are resolved. -/
structure UrlWriter where
  special : UInt8 → Bool
  resolve : List UInt8 → List UInt8
  word : ∀ b, wordByte b = true → special b = false
  slash : special slash = false
  sign : special Percent.sign = false

def UrlWriter.path (url : UrlWriter) (path : List UInt8) : List UInt8 :=
  if hasDots path then url.resolve path else Percent.encode url.special path

def apiMedia : List UInt8 := ascii "/api/media"

def subpathOf (path : List UInt8) : List UInt8 :=
  match apiMedia.isPrefixOf? path with
  | some [] | none => [slash]
  | some rest => rest

/-- **The path that is forwarded.** -/
def UrlWriter.forward (url : UrlWriter) (path : List UInt8) : List UInt8 :=
  url.path (apiMedia ++ subpathOf path)

/-! ### No dot segments are left -/

def isDots (s : List UInt8) : Bool := single s || double s

/-- A segment of a path that is cut at its slashes. -/
structure Segment (s : List UInt8) : Prop where
  notSlash : slash ∉ s
  notBackslash : backslash ∉ s
  notDots : isDots s = false

theorem segment_nil : Segment [] := ⟨List.not_mem_nil, List.not_mem_nil, by decide⟩

theorem slashed_of_not_mem {path : List UInt8} (h : backslash ∉ path) : slashed path = path := by
  refine (List.map_congr_left fun b hb => ?_).trans (List.map_id path)
  have hne : b ≠ backslash := fun heq => h (heq ▸ hb)
  exact if_neg hne

theorem not_mem_slashed (path : List UInt8) : backslash ∉ slashed path := by
  intro hmem
  obtain ⟨b, -, hb⟩ := List.mem_map.mp hmem
  split at hb
  · exact absurd hb (by decide)
  · next hne => exact hne hb

theorem join_splitOn (path : List UInt8) : join slash (path.splitOn slash) = path :=
  List.intercalate_splitOn slash

theorem splitOn_join {segments : List (List UInt8)} (h : ∀ s ∈ segments, slash ∉ s)
    (hne : segments ≠ []) : (join slash segments).splitOn slash = segments :=
  List.splitOn_intercalate slash h hne

theorem of_mem_splitOn {path s : List UInt8} (hs : s ∈ path.splitOn slash) :
    slash ∉ s ∧ s ⊆ path := by
  refine ⟨notMem_of_mem_splitOn hs, fun b hb => ?_⟩
  rw [List.splitOn_eq_splitOnP] at hs
  exact (mem_piece hs b hb).2

/-- **Segments without dots, put together.** -/
theorem hasDots_join {segments : List (List UInt8)} (h : ∀ s ∈ segments, Segment s)
    (hne : segments ≠ []) : hasDots (join slash segments) = false := by
  have hback : backslash ∉ join slash segments := by
    intro hmem
    rcases mem_join hmem with heq | ⟨s, hs, hb⟩
    · exact absurd heq (by decide)
    · exact (h s hs).notBackslash hb
  rw [hasDots, slashed_of_not_mem hback, splitOn_join (fun s hs => (h s hs).notSlash) hne]
  rw [List.any_eq_false]
  intro s hs
  have hdots := (h s hs).notDots
  rw [isDots] at hdots
  rw [hdots]
  exact Bool.false_ne_true

theorem mem_resolveSegments : ∀ {segments out : List (List UInt8)} {s : List UInt8},
    s ∈ resolveSegments segments out → s = [] ∨ s ∈ out ∨ s ∈ segments ∧ isDots s = false
  | [], _, _, h => .inr (.inl h)
  | t :: rest, out, s, h => by
    have hrest : ∀ out', s ∈ resolveSegments rest out' →
        (s ∈ out' → s = [] ∨ s ∈ out ∨ s ∈ t :: rest ∧ isDots s = false) →
        s = [] ∨ s ∈ out ∨ s ∈ t :: rest ∧ isDots s = false := by
      intro out' hmem hout
      rcases mem_resolveSegments hmem with hnil | hmem | ⟨hmem, hdots⟩
      · exact .inl hnil
      · exact hout hmem
      · exact .inr (.inr ⟨List.mem_cons_of_mem t hmem, hdots⟩)
    rw [resolveSegments] at h
    split at h
    · split at h
      · exact (List.mem_cons.mp h).imp_right fun h => .inl (List.mem_of_mem_tail h)
      · exact hrest _ h fun h => .inr (.inl (List.mem_of_mem_tail h))
    · next hdouble =>
      split at h
      · split at h
        · exact (List.mem_cons.mp h).imp_right .inl
        · exact hrest _ h fun h => .inr (.inl h)
      · next hsingle =>
        refine hrest _ h fun h => ?_
        rcases List.mem_cons.mp h with rfl | h
        · refine .inr (.inr ⟨List.mem_cons_self, ?_⟩)
          rw [isDots, Bool.or_eq_false_iff]
          exact ⟨by simpa using hsingle, by simpa using hdouble⟩
        · exact .inr (.inl h)

theorem resolveSegments_ne_nil : ∀ {segments : List (List UInt8)} (out : List (List UInt8)),
    segments ≠ [] → resolveSegments segments out ≠ []
  | [], _, h => absurd rfl h
  | s :: [], out, _ => by
    rw [resolveSegments]
    split
    · exact List.cons_ne_nil _ _
    · split
      · exact List.cons_ne_nil _ _
      · exact List.cons_ne_nil _ _
  | s :: t :: rest, out, _ => by
    have htail := fun out' => resolveSegments_ne_nil out' (List.cons_ne_nil t rest)
    rw [resolveSegments, if_neg (List.cons_ne_nil t rest), if_neg (List.cons_ne_nil t rest)]
    split
    · exact htail _
    · split
      · exact htail _
      · exact htail _

theorem exists_segments {path : List UInt8} (hback : backslash ∉ path) {rest : List UInt8}
    (hroot : (resolveDots path).getD path = slash :: rest) :
    ∃ segments, segments ≠ [] ∧ (∀ s ∈ segments, Segment s) ∧
      (resolveDots path).getD path = slash :: join slash segments := by
  rcases path with _ | ⟨b, path⟩
  · cases hroot
  · rw [List.mem_cons, not_or] at hback
    have hpieces : ∀ s ∈ path.splitOn slash, slash ∉ s ∧ backslash ∉ s := fun s hs =>
      ⟨(of_mem_splitOn hs).1, fun hmem => hback.2 ((of_mem_splitOn hs).2 hmem)⟩
    have hne : path.splitOn slash ≠ [] := List.splitOn_ne_nil slash path
    simp only [resolveDots] at hroot ⊢
    split
    · split
      · refine ⟨(resolveSegments (path.splitOn slash) []).reverse, ?_, ?_, rfl⟩
        · exact fun hnil => resolveSegments_ne_nil [] hne (List.reverse_eq_nil_iff.mp hnil)
        · intro s hs
          rcases mem_resolveSegments (List.mem_reverse.mp hs) with rfl | hmem | ⟨hmem, hdots⟩
          · exact segment_nil
          · cases hmem
          · exact ⟨(hpieces s hmem).1, (hpieces s hmem).2, hdots⟩
      · next hb hnone =>
        refine ⟨path.splitOn slash, hne, ?_, ?_⟩
        · intro s hs
          rw [Bool.not_eq_true, List.any_eq_false] at hnone
          refine ⟨(hpieces s hs).1, (hpieces s hs).2, ?_⟩
          exact Bool.eq_false_iff.mpr (hnone s hs)
        · rw [Option.getD_none, join_splitOn, hb]
    · next hb =>
      rw [if_neg hb, Option.getD_none] at hroot
      exact absurd (List.cons.inj hroot).1 hb

/-- **The edge leaves no dot segments.** -/
theorem noDots_normalizePath {path rest : List UInt8} (hroot : normalizePath path = slash :: rest) :
    hasDots (normalizePath path) = false := by
  obtain ⟨q, hback, hq⟩ : ∃ q, backslash ∉ q ∧ normalizePath path = (resolveDots q).getD q := by
    rw [normalizePath, removeDotSegments]
    split
    · exact ⟨slashed path, not_mem_slashed path, rfl⟩
    · next hback => exact ⟨path, hback, rfl⟩
  rw [hq] at hroot ⊢
  obtain ⟨segments, hne, hsegments, heq⟩ := exists_segments hback hroot
  obtain ⟨s, rest, rfl⟩ := List.exists_cons_of_ne_nil hne
  rw [heq, ← List.nil_append (slash :: _), ← join_cons_cons]
  refine hasDots_join ?_ (List.cons_ne_nil _ _)
  rintro t ht
  rcases List.mem_cons.mp ht with rfl | ht
  · exact segment_nil
  · exact hsegments t ht

theorem normalizePath_join {s : List UInt8} {segments : List (List UInt8)}
    (h : ∀ t ∈ [] :: s :: segments, Segment t) :
    normalizePath (join slash ([] :: s :: segments)) = join slash ([] :: s :: segments) := by
  have hback : backslash ∉ join slash ([] :: s :: segments) := by
    intro hmem
    rcases mem_join hmem with heq | ⟨t, ht, hb⟩
    · exact absurd heq (by decide)
    · exact (h t ht).notBackslash hb
  have hsplit : (join slash (s :: segments)).splitOn slash = s :: segments :=
    splitOn_join (fun t ht => (h t (List.mem_cons_of_mem _ ht)).notSlash) (List.cons_ne_nil _ _)
  have hdots : ((s :: segments).any fun t => single t || double t) = false := by
    rw [List.any_eq_false]
    intro t ht
    exact Bool.eq_false_iff.mp (h t (List.mem_cons_of_mem _ ht)).notDots
  rw [normalizePath, removeDotSegments, if_neg hback, join_cons_cons, List.nil_append, resolveDots,
    if_pos rfl]
  simp only [hsplit, hdots, Bool.false_eq_true, if_false, Option.getD_none]

/-! ### Two readings of one path -/

section Readings

open Percent

theorem decodeBytes_cons_of_ne {b : UInt8} (hb : b ≠ sign) (s : List UInt8) :
    decodeBytes (b :: s) = (decodeBytes s).map (b :: ·) := by
  rcases s with _ | ⟨h, _ | ⟨l, rest⟩⟩
  · simp [decodeBytes, hb]
  · simp [decodeBytes, hb]
  · rw [decodeBytes, if_neg hb]

/-- **The gates read what is spelled.** -/
theorem decodeBytes_of_spells {s w : List UInt8} (h : Spells s w) : decodeBytes s = some w := by
  induction h with
  | nil => rfl
  | byte hb _ ih => rw [decodeBytes_cons_of_ne hb, ih, Option.map_some]
  | @escape h l c s w hc _ ih =>
    have hplus : h ≠ 0x2b := by
      rintro rfl
      rw [escape_eq_none_of_left (by decide)] at hc
      cases hc
    rw [decodeBytes, if_pos rfl, fromStrRadix, if_neg hplus, hc, ih]
    rfl

theorem spells_append {s w t v : List UInt8} (h : Spells s w) (h' : Spells t v) :
    Spells (s ++ t) (w ++ v) := by
  induction h with
  | nil => exact h'
  | byte hb _ ih => exact .byte hb ih
  | escape hc _ ih => exact .escape hc ih

theorem spells_self : ∀ {s : List UInt8}, sign ∉ s → Spells s s
  | [], _ => .nil
  | b :: s, h => by
    rw [List.mem_cons, not_or] at h
    exact .byte (Ne.symm h.1) (spells_self h.2)

theorem spells_join : ∀ {ws vs : List (List UInt8)}, List.Forall₂ Spells ws vs →
    Spells (join slash ws) (join slash vs)
  | [], [], .nil => .nil
  | [w], [v], .cons h .nil => by
    rw [join_singleton, join_singleton]
    exact h
  | w :: w' :: ws, v :: v' :: vs, .cons h hrest => by
    rw [join_cons_cons, join_cons_cons]
    exact spells_append h (.byte (by decide) (spells_join hrest))

theorem splitOn_encode (url : UrlWriter) (path : List UInt8) :
    (encode url.special path).splitOn slash = (path.splitOn slash).map (encode url.special) := by
  have hslash : ∀ s ∈ (path.splitOn slash).map (encode url.special), slash ∉ s := by
    intro s hs
    obtain ⟨t, ht, rfl⟩ := List.mem_map.mp hs
    exact not_mem_encode (by decide) (by decide) (of_mem_splitOn ht).1
  have hne : (path.splitOn slash).map (encode url.special) ≠ [] := by
    rw [ne_eq, List.map_eq_nil_iff]
    exact List.splitOn_ne_nil slash path
  calc (encode url.special path).splitOn slash
      = (encode url.special (join slash (path.splitOn slash))).splitOn slash := by
        rw [join_splitOn]
    _ = (join slash ((path.splitOn slash).map (encode url.special))).splitOn slash := by
        rw [encode_join url.slash]
    _ = (path.splitOn slash).map (encode url.special) := splitOn_join hslash hne

theorem ne_sign_of_wordByte {b : UInt8} (h : wordByte b = true) : b ≠ sign := by
  rintro rfl
  exact absurd h (by decide)

theorem wordByte_of_hexVal {b : UInt8} (h : (hexVal b).isSome) : wordByte b = true := by
  rw [hexVal] at h
  simp only [wordByte, Bool.or_eq_true, Bool.and_eq_true, decide_eq_true_eq]
  split at h
  · omega
  · split at h
    · omega
    · split at h
      · omega
      · cases h

/-- **A parameter that is a word** has been spelled with escapes or without, and has not been
changed when the path was written. -/
theorem spells_of_param (url : UrlWriter) {s : List UInt8} {word : List Char}
    (hparam : Utf8.decode (decode (encode url.special s)) = some word)
    (hword : ∀ b ∈ Utf8.encode word, wordByte b = true) : Spells s (Utf8.encode word) := by
  have hdecode := Utf8.encode_of_decode hparam
  rw [hdecode]
  refine spells_of_decode_encode url.sign (fun b hb => url.word b (wordByte_of_hexVal hb)) ?_
  intro b hb
  rw [← hdecode] at hb
  exact ⟨ne_sign_of_wordByte (hword b hb), url.word b (hword b hb)⟩

theorem encode_join_text : ∀ ts : List (List Char),
    Utf8.encode (join '/' ts) = join slash (ts.map Utf8.encode)
  | [] => rfl
  | [t] => by rw [List.map_singleton, join_singleton, join_singleton]
  | t :: u :: ts => by
    have ih := encode_join_text (u :: ts)
    rw [List.map_cons] at ih
    rw [List.map_cons, List.map_cons, join_cons_cons, join_cons_cons, ← ih, Utf8.encode,
      List.flatMap_append, List.flatMap_cons]
    rfl

theorem wordByte_of_integer {cs : List Char} {z : ℤ} (h : Decimal.integer cs = some z) :
    ∀ b ∈ Utf8.encode cs, wordByte b = true := by
  have hdigits : ∀ ds : List Char, ds.all Char.isDigit = true →
      ∀ b ∈ Utf8.encode ds, wordByte b = true := by
    intro ds hds b hb
    obtain ⟨c, hc, hb⟩ := List.mem_flatMap.mp hb
    have hdigit := List.all_eq_true.mp hds c hc
    rw [Char.isDigit, Bool.and_eq_true, decide_eq_true_eq, decide_eq_true_eq] at hdigit
    have hlo : 0x30 ≤ c.toNat := hdigit.1
    have hhi : c.toNat ≤ 0x39 := hdigit.2
    rw [Utf8.encodeChar_of_lt (by omega), List.mem_singleton] at hb
    have hnat : b.toNat = c.toNat := by
      rw [hb, UInt8.toNat_ofNat']
      omega
    simp only [wordByte, Bool.or_eq_true, Bool.and_eq_true, decide_eq_true_eq]
    omega
  have hcons : ∀ (c : Char) (ds : List Char) (b₀ : UInt8), String.utf8EncodeChar c = [b₀] →
      wordByte b₀ = true → ds.all Char.isDigit = true →
      ∀ b ∈ Utf8.encode (c :: ds), wordByte b = true := by
    intro c ds b₀ hc hb₀ hds b hb
    rw [Utf8.encode, List.flatMap_cons, hc] at hb
    rcases List.mem_cons.mp hb with rfl | hb
    · exact hb₀
    · exact hdigits ds hds b hb
  obtain ⟨-, hall, -⟩ := Decimal.integer_eq_some h
  rcases Decimal.sign_cases cs with ⟨ds, rfl, hsign⟩ | ⟨ds, rfl, hsign⟩ | hsign
  · rw [hsign] at hall
    exact hcons '-' ds 0x2d (by decide) (by decide) hall
  · rw [hsign] at hall
    exact hcons '+' ds 0x2b (by decide) (by decide) hall
  · rw [hsign] at hall
    exact hdigits cs hall

/-- **The segments of a path that reaches a handler**, for a kind that is a word. -/
theorem exists_segments_of_dispatch (url : UrlWriter) {path : List UInt8} {h : Handler}
    {kind : String} {id : ℤ}
    (hdispatch : dispatch (encode url.special path) = some (h, kind, id))
    (hkind : ∀ b ∈ ascii kind, wordByte b = true) :
    ∃ rawKind rawId idText tail,
      path.splitOn slash = nest ++ ascii h.lead :: rawKind :: rawId :: tail ∧
      Spells rawKind (ascii kind) ∧ Spells rawId (Utf8.encode idText) ∧
      Decimal.integer idText = some id ∧
      (tail = [] ∨ ∃ action ∈ subtitleActions, tail = [ascii action]) := by
  obtain ⟨encKind, encId, idText, hroute, hkindText, hidText, hint⟩ := dispatch_eq_some hdispatch
  obtain ⟨tail, hsegments, htail⟩ := route_eq_some hroute
  rw [splitOn_encode, List.map_eq_append_iff] at hsegments
  obtain ⟨front, rest, hsplit, hfront, hrest⟩ := hsegments
  obtain ⟨lead, params, rfl, hlead, hparams⟩ := List.map_eq_cons_iff.mp hrest
  obtain ⟨rawKind, ids, rfl, rfl, hids⟩ := List.map_eq_cons_iff.mp hparams
  obtain ⟨rawId, back, rfl, rfl, hback⟩ := List.map_eq_cons_iff.mp hids
  -- what is written without percent signs has not been changed
  have hsame : ∀ {ws vs : List (List UInt8)}, ws.map (encode url.special) = vs →
      (∀ v ∈ vs, sign ∉ v) → ws = vs := by
    intro ws vs heq hv
    subst heq
    refine ((List.map_congr_left fun w hw => ?_).trans (List.map_id ws)).symm
    exact (eq_of_encode_eq rfl (hv _ (List.mem_map_of_mem hw))).symm
  have hnest : front = nest := hsame hfront (by decide)
  have hleadEq : lead = ascii h.lead := eq_of_encode_eq hlead (by cases h <;> decide)
  have hbackEq : back = tail := by
    refine hsame hback ?_
    rcases htail with rfl | ⟨action, haction, rfl⟩
    · exact fun v hv => absurd hv List.not_mem_nil
    · intro v hv
      obtain rfl := List.mem_singleton.mp hv
      have hwords : ∀ a ∈ subtitleActions, sign ∉ ascii a := by decide
      exact hwords action haction
  subst hnest hleadEq hbackEq
  exact ⟨rawKind, rawId, idText, back, hsplit, spells_of_param url hkindText hkind,
    spells_of_param url hidText (wordByte_of_integer hint), hint, htail⟩

theorem api_append_subpathOf (path : List UInt8) :
    apiMedia ++ subpathOf path = join slash (nest ++ [[]]) ∨
      apiMedia ++ subpathOf path = path ∧ ∃ rest, path = slash :: rest := by
  have hroot : apiMedia ++ [slash] = join slash (nest ++ [[]]) := by decide
  rw [subpathOf]
  split
  · exact .inl hroot
  · exact .inl hroot
  · next rest _ hrest =>
    have hpath := List.append_eq_of_isPrefixOf?_eq_some hrest
    exact .inr ⟨hpath, _, hpath.symm⟩

theorem segment_nest : ∀ s ∈ nest ++ [[]], Segment s := by
  have hall : ∀ s ∈ nest ++ [[]], slash ∉ s ∧ backslash ∉ s ∧ isDots s = false := by decide
  exact fun s hs => ⟨(hall s hs).1, (hall s hs).2.1, (hall s hs).2.2⟩

/-- **What the gates read of a path that reaches a handler**: its lead, the kind, and a numeral of
the identifier. -/
theorem decode_of_dispatch (url : UrlWriter) {path : List UInt8} {h : Handler} {kind : String}
    {id : ℤ} (hdispatch : dispatch (url.forward (normalizePath path)) = some (h, kind, id))
    (hkind : ∀ b ∈ ascii kind, wordByte b = true) :
    ∃ idText tail, Decimal.integer idText = some id ∧
      (tail = [] ∨ ∃ action : List Char, tail = '/' :: action) ∧
      decodeUriComponent (normalizePath path) = some ("/api/media".toList ++
        '/' :: (h.lead.toList ++ '/' :: (kind.toList ++ '/' :: (idText ++ tail)))) := by
  rw [UrlWriter.forward] at hdispatch
  rcases api_append_subpathOf (normalizePath path) with hroot | ⟨hsame, rest, hslash⟩
  · -- the root has too few segments
    rw [hroot, UrlWriter.path, hasDots_join segment_nest (by decide)] at hdispatch
    obtain ⟨_, _, _, tail, hsplit, -⟩ := exists_segments_of_dispatch url hdispatch hkind
    rw [splitOn_join (fun s hs => (segment_nest s hs).notSlash) (by decide)] at hsplit
    have hlen := congrArg List.length hsplit
    simp only [List.length_append, List.length_cons, List.length_nil] at hlen
    omega
  · rw [hsame, UrlWriter.path, noDots_normalizePath hslash] at hdispatch
    obtain ⟨rawKind, rawId, idText, tail, hsplit, hrawKind, hrawId, hint, htail⟩ :=
      exists_segments_of_dispatch url hdispatch hkind
    have htailText : ∃ actions : List (List Char), tail = actions.map Utf8.encode ∧
        (∀ s ∈ tail, sign ∉ s) ∧ (actions = [] ∨ ∃ action, actions = [action]) := by
      rcases htail with rfl | ⟨action, haction, rfl⟩
      · exact ⟨[], rfl, by decide, .inl rfl⟩
      · refine ⟨[action.toList], rfl, ?_, .inr ⟨_, rfl⟩⟩
        intro s hs
        obtain rfl := List.mem_singleton.mp hs
        have hwords : ∀ a ∈ subtitleActions, sign ∉ ascii a := by decide
        exact hwords action haction
    obtain ⟨actions, htailEq, hclean, hactions⟩ := htailText
    have hnest : ∀ s ∈ nest, sign ∉ s := by decide
    have hlead : sign ∉ ascii h.lead := by cases h <;> decide
    have hself : ∀ {ws : List (List UInt8)}, (∀ s ∈ ws, sign ∉ s) → List.Forall₂ Spells ws ws :=
      fun hws => List.forall₂_same.mpr fun s hs => spells_self (hws s hs)
    have hspells : List.Forall₂ Spells (nest ++ ascii h.lead :: rawKind :: rawId :: tail)
        (nest ++ ascii h.lead :: ascii kind :: Utf8.encode idText :: tail) :=
      List.rel_append (hself hnest) (.cons (spells_self hlead)
        (.cons hrawKind (.cons hrawId (hself hclean))))
    have hbytes := decodeBytes_of_spells (spells_join hspells)
    rw [← hsplit, join_splitOn] at hbytes
    have htext : nest ++ ascii h.lead :: ascii kind :: Utf8.encode idText :: tail =
        ([[], "api".toList, "media".toList, h.lead.toList, kind.toList, idText] ++ actions).map
          Utf8.encode := by
      rw [htailEq, List.map_append]
      rfl
    have hapi : "/api/media".toList = '/' :: ("api".toList ++ '/' :: "media".toList) := by decide
    refine ⟨idText, (actions.map fun a => '/' :: a).flatten, hint, ?_, ?_⟩
    · rcases hactions with rfl | ⟨action, rfl⟩
      · exact .inl rfl
      · exact .inr ⟨action ++ [], rfl⟩
    · rw [decodeUriComponent, hbytes, Option.bind_some, htext, ← encode_join_text,
        Utf8.decode_encode, hapi]
      rcases hactions with rfl | ⟨action, rfl⟩
      · simp [join_cons_cons, join_singleton]
      · simp [join_cons_cons, join_singleton]

end Readings

end EmeraldExchange.Gateway
