import EmeraldExchange.Gateway.MediaPath

/-!
# The path that is parsed once more

A request that is forwarded is written into a URL, which is parsed: a machine reads the path byte by
byte, keeps the segments on a stack, and takes dot segments away. The edge has done so before, in a
loop of its own over the segments, and only where there is something to do. Both come to the same
path (`parsePath_eq`), but for the bytes that the parser writes as escapes.
So what the gates see is what is forwarded, and the control paths of the transcoder, which are held
back where the gates see them, are not reached (`decode_forwardTranscode`).
-/

namespace EmeraldExchange.Gateway

open MediaCore Words Percent

/-! ### The parser -/

section PathState

variable (special : UInt8 → Bool)

/-- **The path state**: what is left to read, the buffer, and the stack of segments. At a slash, and
at the end, the buffer becomes a segment, unless it is made of dots; two dots shorten the path. -/
def pathState : List UInt8 → List UInt8 → List (List UInt8) → List (List UInt8)
  | [], buffer, path =>
    if double buffer then [] :: path.tail
    else if single buffer then [] :: path
    else buffer :: path
  | c :: rest, buffer, path =>
    if c = slash ∨ c = backslash then
      pathState rest []
        (if double buffer then path.tail else if single buffer then path else buffer :: path)
    else pathState rest (buffer ++ write special c) path

/-- The segments of a path that is parsed, the last one first: a slash or a backslash that it begins
with is skipped. -/
def pathStart : List UInt8 → List (List UInt8)
  | [] => pathState special [] [] []
  | c :: rest =>
    if c = slash ∨ c = backslash then pathState special rest [] []
    else pathState special (c :: rest) [] []

def serializePath (segments : List (List UInt8)) : List UInt8 :=
  segments.flatMap fun s => slash :: s

/-- **The path of a URL that is parsed**, as it is written. -/
def parsePath (path : List UInt8) : List UInt8 := serializePath (pathStart special path).reverse

end PathState

/-! ### The transcoder behind the edge -/

def apiTranscode : List UInt8 := ascii "/api/transcode"

def blockedControlPaths : List (List Char) := ["/grant".toList, "/warm".toList]

def transcodeSubpath (path : List UInt8) : List UInt8 :=
  match apiTranscode.isPrefixOf? path with
  | some [] | none => [slash]
  | some rest => rest

/-- Texts are compared by their characters. -/
local instance lawfulBEqText : LawfulBEq (List Char) := List.instLawfulBEq

/-- **The path that is forwarded to the transcoder**, unless it is refused: what the control paths
are compared with is read at once, and what is forwarded is parsed again. -/
def forwardTranscode (special : UInt8 → Bool) (path : List UInt8) : Option (List UInt8) :=
  match decodeUriComponent (transcodeSubpath path) with
  | some decoded =>
    if decoded ∈ blockedControlPaths then none
    else some (parsePath special (apiTranscode ++ transcodeSubpath path))
  | none => none

/-! ### Dots that are read -/

def dot : UInt8 := 0x2e

theorem lowerByte_spec (b : UInt8) :
    (lowerByte b = dot ↔ b = dot) ∧ (lowerByte b = sign ↔ b = sign) ∧
      (lowerByte b = 0x32 ↔ hexVal b = some 2) ∧ (lowerByte b = 0x65 ↔ hexVal b = some 14) := by
  have hall : ∀ n < 256, (lowerByte (UInt8.ofNat n) = dot ↔ UInt8.ofNat n = dot) ∧
      (lowerByte (UInt8.ofNat n) = sign ↔ UInt8.ofNat n = sign) ∧
      (lowerByte (UInt8.ofNat n) = 0x32 ↔ hexVal (UInt8.ofNat n) = some 2) ∧
      (lowerByte (UInt8.ofNat n) = 0x65 ↔ hexVal (UInt8.ofNat n) = some 14) := by
    decide +kernel
  have h := hall b.toNat b.toNat_lt
  rw [UInt8.ofNat_toNat] at h
  exact h

theorem hexVal_lt {b : UInt8} {n : ℕ} (h : hexVal b = some n) : n < 16 := by
  rw [hexVal] at h
  split at h
  · cases h
    omega
  · split at h
    · cases h
      omega
    · split at h
      · cases h
        omega
      · cases h

theorem escape_eq_dot {h l : UInt8} :
    escape h l = some dot ↔ hexVal h = some 2 ∧ hexVal l = some 14 := by
  rw [escape, Option.bind_eq_bind, Option.bind_eq_some_iff]
  constructor
  · rintro ⟨x, hx, hrest⟩
    rw [Option.bind_eq_some_iff] at hrest
    obtain ⟨y, hy, heq⟩ := hrest
    have hx16 := hexVal_lt hx
    have hy16 := hexVal_lt hy
    have hval := congrArg UInt8.toNat (Option.some.inj heq)
    rw [UInt8.toNat_ofNat'] at hval
    have hdot : dot.toNat = 46 := rfl
    rw [hdot] at hval
    obtain ⟨rfl, rfl⟩ : x = 2 ∧ y = 14 := by omega
    exact ⟨hx, hy⟩
  · rintro ⟨hx, hy⟩
    exact ⟨2, hx, by rw [hy]; rfl⟩

theorem decode_eq_nil : ∀ {s : List UInt8}, Percent.decode s = [] ↔ s = []
  | [] => Iff.rfl
  | b :: s => by
    refine ⟨fun h => ?_, fun h => absurd h (List.cons_ne_nil b s)⟩
    rcases eq_or_ne b sign with rfl | hne
    · by_cases hesc : ∃ h l rest c, s = h :: l :: rest ∧ escape h l = some c
      · obtain ⟨_, _, _, c, rfl, hc⟩ := hesc
        rw [decode_escape hc] at h
        cases h
      · rw [decode_sign] at h
        · cases h
        · intro x l rest heq
          exact Option.eq_none_iff_forall_ne_some.mpr fun c hc => hesc ⟨x, l, rest, c, heq, hc⟩
    · rw [decode_cons_of_ne hne] at h
      cases h

theorem decode_eq_dot_cons {s w : List UInt8} :
    Percent.decode s = dot :: w ↔ (∃ rest, s = dot :: rest ∧ Percent.decode rest = w) ∨
      ∃ h l rest, s = sign :: h :: l :: rest ∧ escape h l = some dot ∧
        Percent.decode rest = w := by
  constructor
  · intro heq
    rcases s with _ | ⟨b, s⟩
    · cases heq
    · rcases eq_or_ne b sign with rfl | hne
      · by_cases hesc : ∃ h l rest c, s = h :: l :: rest ∧ escape h l = some c
        · obtain ⟨h, l, rest, c, rfl, hc⟩ := hesc
          rw [decode_escape hc] at heq
          obtain ⟨rfl, htail⟩ := List.cons.inj heq
          exact .inr ⟨h, l, rest, rfl, hc, htail⟩
        · rw [decode_sign] at heq
          · exact absurd (List.cons.inj heq).1 (by decide)
          · intro x l rest hs
            exact Option.eq_none_iff_forall_ne_some.mpr fun c hc => hesc ⟨x, l, rest, c, hs, hc⟩
      · rw [decode_cons_of_ne hne] at heq
        obtain ⟨rfl, htail⟩ := List.cons.inj heq
        exact .inl ⟨s, rfl, htail⟩
  · rintro (⟨rest, rfl, rfl⟩ | ⟨h, l, rest, rfl, hc, rfl⟩)
    · exact decode_cons_of_ne (by decide) rest
    · exact decode_escape hc rest

/-- **A segment is a dot when it reads as one.** -/
theorem single_iff {s : List UInt8} : single s = true ↔ Percent.decode s = [dot] := by
  have hdot : ascii "." = [dot] := by decide
  have hesc : ascii "%2e" = [sign, 0x32, 0x65] := by decide
  rw [single, Bool.or_eq_true, decide_eq_true_eq, decide_eq_true_eq, hdot, hesc,
    decode_eq_dot_cons]
  simp only [decode_eq_nil, List.map_eq_cons_iff, List.map_eq_nil_iff, lowerByte_spec,
    escape_eq_dot]
  constructor
  · rintro (rfl | ⟨_, _, rfl, rfl, h, _, rfl, hh, l, _, rfl, hl, rfl⟩)
    · exact .inl ⟨[], rfl, rfl⟩
    · exact .inr ⟨h, l, [], rfl, ⟨hh, hl⟩, rfl⟩
  · rintro (⟨_, rfl, rfl⟩ | ⟨h, l, _, rfl, ⟨hh, hl⟩, rfl⟩)
    · exact .inl rfl
    · exact .inr ⟨_, _, rfl, rfl, h, _, rfl, hh, l, _, rfl, hl, rfl⟩

/-- **And it is two dots when it reads as two.** -/
theorem double_iff {s : List UInt8} : double s = true ↔ Percent.decode s = [dot, dot] := by
  have hspells : [ascii "..", ascii ".%2e", ascii "%2e.", ascii "%2e%2e"] =
      [[dot, dot], [dot, sign, 0x32, 0x65], [sign, 0x32, 0x65, dot],
        [sign, 0x32, 0x65, sign, 0x32, 0x65]] := by
    decide
  rw [double, decide_eq_true_eq, hspells]
  simp only [List.mem_cons, List.not_mem_nil, or_false, decode_eq_dot_cons, decode_eq_nil,
    List.map_eq_cons_iff, List.map_eq_nil_iff, lowerByte_spec, escape_eq_dot]
  constructor
  · rintro (⟨_, _, rfl, rfl, _, _, rfl, rfl, rfl⟩ |
      ⟨_, _, rfl, rfl, _, _, rfl, rfl, h, _, rfl, hh, l, _, rfl, hl, rfl⟩ |
      ⟨_, _, rfl, rfl, h, _, rfl, hh, l, _, rfl, hl, _, _, rfl, rfl, rfl⟩ |
      ⟨_, _, rfl, rfl, h, _, rfl, hh, l, _, rfl, hl,
        _, _, rfl, rfl, h', _, rfl, hh', l', _, rfl, hl', rfl⟩)
    · exact .inl ⟨_, rfl, .inl ⟨_, rfl, rfl⟩⟩
    · exact .inl ⟨_, rfl, .inr ⟨h, l, _, rfl, ⟨hh, hl⟩, rfl⟩⟩
    · exact .inr ⟨h, l, _, rfl, ⟨hh, hl⟩, .inl ⟨_, rfl, rfl⟩⟩
    · exact .inr ⟨h, l, _, rfl, ⟨hh, hl⟩, .inr ⟨h', l', _, rfl, ⟨hh', hl'⟩, rfl⟩⟩
  · rintro (⟨_, rfl, ⟨_, rfl, rfl⟩ | ⟨h, l, _, rfl, ⟨hh, hl⟩, rfl⟩⟩ |
      ⟨h, l, _, rfl, ⟨hh, hl⟩, ⟨_, rfl, rfl⟩ | ⟨h', l', _, rfl, ⟨hh', hl'⟩, rfl⟩⟩)
    · exact .inl ⟨_, _, rfl, rfl, _, _, rfl, rfl, rfl⟩
    · exact .inr (.inl ⟨_, _, rfl, rfl, _, _, rfl, rfl, h, _, rfl, hh, l, _, rfl, hl, rfl⟩)
    · exact .inr (.inr (.inl ⟨_, _, rfl, rfl, h, _, rfl, hh, l, _, rfl, hl, _, _, rfl, rfl, rfl⟩))
    · exact .inr (.inr (.inr ⟨_, _, rfl, rfl, h, _, rfl, hh, l, _, rfl, hl,
        _, _, rfl, rfl, h', _, rfl, hh', l', _, rfl, hl', rfl⟩))

theorem UrlWriter.hexDigits (url : UrlWriter) (b : UInt8) (hb : (hexVal b).isSome) :
    url.special b = false := url.word b (wordByte_of_hexVal hb)

theorem single_encode (url : UrlWriter) (s : List UInt8) :
    single (encode url.special s) = single s := by
  rw [Bool.eq_iff_iff, single_iff, single_iff, Percent.decode_encode url.sign url.hexDigits]

theorem double_encode (url : UrlWriter) (s : List UInt8) :
    double (encode url.special s) = double s := by
  rw [Bool.eq_iff_iff, double_iff, double_iff, Percent.decode_encode url.sign url.hexDigits]

/-! ### One path -/

theorem resolveSegments_encode (url : UrlWriter) : ∀ segments out : List (List UInt8),
    resolveSegments (segments.map (encode url.special)) (out.map (encode url.special)) =
      (resolveSegments segments out).map (encode url.special)
  | [], _ => rfl
  | s :: rest, out => by
    have hrest := fun out' => resolveSegments_encode url rest out'
    have hnil : rest.map (encode url.special) = [] ↔ rest = [] := List.map_eq_nil_iff
    rw [List.map_cons, resolveSegments, resolveSegments, single_encode, double_encode]
    simp only [hnil]
    split
    · split
      · rw [List.map_cons, List.map_tail]
        rfl
      · rw [← List.map_tail, hrest]
    · split
      · split
        · rw [List.map_cons]
          rfl
        · exact hrest out
      · exact hrest (s :: out)

theorem resolveSegments_of_noDots : ∀ {segments : List (List UInt8)} (out : List (List UInt8)),
    (segments.any fun s => single s || double s) = false →
      resolveSegments segments out = segments.reverse ++ out
  | [], _, _ => rfl
  | s :: rest, out, h => by
    rw [List.any_cons, Bool.or_eq_false_iff, Bool.or_eq_false_iff] at h
    obtain ⟨⟨hsingle, hdouble⟩, hrest⟩ := h
    rw [resolveSegments, hsingle, hdouble, if_neg Bool.false_ne_true, if_neg Bool.false_ne_true,
      resolveSegments_of_noDots (s :: out) hrest, List.reverse_cons, List.append_assoc]
    rfl

theorem resolveSegments_cons_cons (s t : List UInt8) (rest path : List (List UInt8)) :
    resolveSegments (s :: t :: rest) path = resolveSegments (t :: rest)
      (if double s then path.tail else if single s then path else s :: path) := by
  rw [resolveSegments, if_neg (List.cons_ne_nil t rest), if_neg (List.cons_ne_nil t rest)]
  split
  · rfl
  · split
    · rfl
    · rfl

theorem resolveSegments_singleton (s : List UInt8) (path : List (List UInt8)) :
    resolveSegments [s] path =
      if double s then [] :: path.tail else if single s then [] :: path else s :: path := by
  rw [resolveSegments, if_pos rfl, if_pos rfl]
  rfl

/-- **The parser resolves the segments**: what is in the buffer begins the first of those that are
left. -/
theorem pathState_eq (url : UrlWriter) : ∀ (rest buffer : List UInt8) (path : List (List UInt8)),
    pathState url.special rest buffer path = resolveSegments
      (List.modifyHead (buffer ++ ·)
        (((slashed rest).splitOn slash).map (encode url.special))) path
  | [], buffer, path => by
    have hnil : List.modifyHead (buffer ++ ·)
        (((slashed []).splitOn slash).map (encode url.special)) = [buffer] := by
      rw [slashed, List.map_nil, List.splitOn_nil, List.map_singleton, List.modifyHead_cons]
      exact congrArg (· :: []) (List.append_nil buffer)
    rw [hnil, resolveSegments_singleton, pathState]
  | c :: rest, buffer, path => by
    obtain ⟨s, segments, hsplit⟩ :=
      List.exists_cons_of_ne_nil (List.splitOn_ne_nil slash (slashed rest))
    rw [pathState]
    split
    · next hc =>
      -- the buffer is a segment
      have hslash : slashed (c :: rest) = slash :: slashed rest := by
        rcases hc with rfl | rfl
        · rfl
        · rfl
      have hcons : List.modifyHead (buffer ++ ·)
          (((slashed (c :: rest)).splitOn slash).map (encode url.special)) =
            buffer :: encode url.special s :: segments.map (encode url.special) := by
        rw [hslash, List.splitOn_cons_eq_if_modifyHead, if_pos (beq_self_eq_true _), hsplit,
          List.map_cons, List.modifyHead_cons, List.map_cons]
        exact congrArg (· :: _) (List.append_nil buffer)
      rw [pathState_eq url rest, hcons, resolveSegments_cons_cons, hsplit, List.map_cons,
        List.modifyHead_cons, List.nil_append]
    · next hc =>
      -- the buffer goes on
      rw [not_or] at hc
      have hother : slashed (c :: rest) = c :: slashed rest := by
        rw [slashed, List.map_cons, if_neg hc.2]
        rfl
      have hcons : List.modifyHead (buffer ++ ·)
          (((slashed (c :: rest)).splitOn slash).map (encode url.special)) =
            (buffer ++ write url.special c ++ encode url.special s) ::
              segments.map (encode url.special) := by
        rw [hother, List.splitOn_cons_eq_if_modifyHead,
          if_neg fun h => hc.1 (beq_iff_eq.mp h), hsplit, List.modifyHead_cons, List.map_cons,
          List.modifyHead_cons, encode_cons, List.append_assoc]
      rw [pathState_eq url rest, hcons, hsplit, List.map_cons, List.modifyHead_cons]

theorem serializePath_eq : ∀ {segments : List (List UInt8)}, segments ≠ [] →
    serializePath segments = slash :: join slash segments
  | [], h => absurd rfl h
  | [s], _ => by rw [serializePath, List.flatMap_singleton, join_singleton]
  | s :: t :: rest, _ => by
    have ih := serializePath_eq (List.cons_ne_nil t rest)
    rw [join_cons_cons, ← ih]
    rfl

/-- **What the edge makes of a path**, whether there is something to do or not. -/
theorem normalizePath_slash (rest : List UInt8) : normalizePath (slash :: rest) =
    slash :: join slash (resolveSegments ((slashed rest).splitOn slash) []).reverse := by
  have hdots : ∀ path : List UInt8, (resolveDots (slash :: path)).getD (slash :: path) =
      slash :: join slash (resolveSegments (path.splitOn slash) []).reverse := by
    intro path
    rw [resolveDots, if_pos rfl]
    dsimp only
    split
    · rfl
    · next hnone =>
      rw [Bool.not_eq_true] at hnone
      rw [resolveSegments_of_noDots [] hnone, List.append_nil, List.reverse_reverse,
        join_splitOn]
      rfl
  have hslashed : slashed (slash :: rest) = slash :: slashed rest := rfl
  rw [normalizePath, removeDotSegments]
  split
  · rw [hslashed, Option.getD_some, hdots]
  · next hback =>
    rw [hdots, slashed_of_not_mem fun hmem => hback (List.mem_cons_of_mem _ hmem)]

/-- **The parser and the edge come to the same path**, but for the bytes that become escapes. -/
theorem parsePath_eq (url : UrlWriter) (rest : List UInt8) :
    parsePath url.special (slash :: rest) =
      encode url.special (normalizePath (slash :: rest)) := by
  have hne : (slashed rest).splitOn slash ≠ [] := List.splitOn_ne_nil slash _
  have hresolved : pathStart url.special (slash :: rest) =
      (resolveSegments ((slashed rest).splitOn slash) []).map (encode url.special) := by
    rw [pathStart, if_pos (.inl rfl), pathState_eq, ← resolveSegments_encode]
    obtain ⟨s, segments, hsplit⟩ := List.exists_cons_of_ne_nil hne
    rw [hsplit]
    rfl
  have hsegments := resolveSegments_ne_nil [] hne
  rw [parsePath, hresolved, ← List.map_reverse, serializePath_eq, normalizePath_slash,
    encode_cons, write_of_not url.slash, encode_join url.slash]
  · rfl
  · rw [ne_eq, List.map_eq_nil_iff, List.reverse_eq_nil_iff]
    exact hsegments

theorem backslash_notMem_resolveDots {path : List UInt8} (hback : backslash ∉ path) :
    backslash ∉ (resolveDots path).getD path := by
  rcases path with _ | ⟨b, path⟩
  · exact hback
  · by_cases hb : b = slash
    · obtain ⟨rest, hrest⟩ : ∃ rest, (resolveDots (b :: path)).getD (b :: path) =
          slash :: rest := by
        rw [resolveDots, if_pos hb]
        dsimp only
        split
        · exact ⟨_, rfl⟩
        · exact ⟨path, by rw [hb]; rfl⟩
      obtain ⟨segments, -, hsegments, heq⟩ := exists_segments hback hrest
      rw [heq, List.mem_cons, not_or]
      refine ⟨by decide, fun hmem => ?_⟩
      rcases mem_join hmem with heq | ⟨s, hs, hb⟩
      · exact absurd heq (by decide)
      · exact (hsegments s hs).notBackslash hb
    · rw [resolveDots, if_neg hb]
      exact hback

theorem backslash_notMem_normalizePath (path : List UInt8) : backslash ∉ normalizePath path := by
  rw [normalizePath, removeDotSegments]
  split
  · rw [Option.getD_some]
    exact backslash_notMem_resolveDots (not_mem_slashed path)
  · next hback => exact backslash_notMem_resolveDots hback

/-- **Behind the edge there is nothing left to do.** -/
theorem removeDotSegments_normalizePath (path : List UInt8) :
    removeDotSegments (normalizePath path) = none := by
  have hback := backslash_notMem_normalizePath path
  rw [removeDotSegments, if_neg hback]
  rcases hpath : normalizePath path with _ | ⟨b, rest⟩
  · rfl
  · rw [resolveDots]
    split
    · next hb =>
      subst hb
      have hdots := noDots_normalizePath hpath
      rw [hpath] at hback hdots
      rw [hasDots, slashed_of_not_mem hback, List.splitOn_cons_eq_if_modifyHead,
        if_pos (beq_self_eq_true _), List.any_cons, Bool.or_eq_false_iff] at hdots
      exact if_neg (Bool.eq_false_iff.mp hdots.2)
    · rfl

theorem normalizePath_normalizePath (path : List UInt8) :
    normalizePath (normalizePath path) = normalizePath path := by
  conv_lhs => rw [normalizePath, removeDotSegments_normalizePath]
  rfl

/-! ### What is forwarded -/

def plainWriter : UrlWriter where
  special _ := false
  resolve path := path
  word _ _ := rfl
  slash := rfl
  sign := rfl

theorem encode_plain : ∀ s : List UInt8, encode plainWriter.special s = s
  | [] => rfl
  | b :: s => by
    rw [encode_cons, encode_plain s]
    rfl

theorem api_append_transcodeSubpath (path : List UInt8) :
    apiTranscode ++ transcodeSubpath path = apiTranscode ++ [slash] ∨
      apiTranscode ++ transcodeSubpath path = path := by
  rw [transcodeSubpath]
  split
  · exact .inl rfl
  · exact .inl rfl
  · next rest _ hrest => exact .inr (List.append_eq_of_isPrefixOf?_eq_some hrest)

/-- **What is forwarded is what the gates have seen**, but for the bytes that become escapes. -/
theorem parsePath_transcode (url : UrlWriter) (path : List UInt8) :
    parsePath url.special (apiTranscode ++ transcodeSubpath (normalizePath path)) =
      encode url.special (apiTranscode ++ transcodeSubpath (normalizePath path)) := by
  obtain ⟨rest, hapi⟩ : ∃ rest, apiTranscode = slash :: rest := ⟨_, rfl⟩
  have hnormal : normalizePath (apiTranscode ++ transcodeSubpath (normalizePath path)) =
      apiTranscode ++ transcodeSubpath (normalizePath path) := by
    rcases api_append_transcodeSubpath (normalizePath path) with hroot | hsame
    · rw [hroot]
      decide +kernel
    · rw [hsame, normalizePath_normalizePath]
  have hparse := parsePath_eq url (rest ++ transcodeSubpath (normalizePath path))
  rw [← List.cons_append, ← hapi, hnormal] at hparse
  exact hparse

theorem decode_append_of_notMem : ∀ {s : List UInt8}, sign ∉ s → ∀ t : List UInt8,
    Percent.decode (s ++ t) = s ++ Percent.decode t
  | [], _, _ => rfl
  | b :: s, h, t => by
    rw [List.mem_cons, not_or] at h
    rw [List.cons_append, decode_cons_of_ne (Ne.symm h.1), decode_append_of_notMem h.2]
    rfl

/-- **The control paths are not reached**, however they are spelled. -/
theorem decode_forwardTranscode (url : UrlWriter) {path forwarded : List UInt8}
    (hforward : forwardTranscode url.special (normalizePath path) = some forwarded)
    {control : List Char} (hcontrol : control ∈ blockedControlPaths) :
    Percent.decode forwarded ≠ apiTranscode ++ Utf8.encode control := by
  rw [forwardTranscode] at hforward
  split at hforward
  · next decoded hdecoded =>
    split at hforward
    · cases hforward
    · next hallowed =>
      obtain rfl := Option.some.inj hforward
      rw [parsePath_transcode, Percent.decode_encode url.sign url.hexDigits,
        decode_append_of_notMem (by decide)]
      intro heq
      have hsub := List.append_cancel_left heq
      -- the gate would have read the control path too
      have hclean : sign ∉ Utf8.encode control := by
        have hall : ∀ c ∈ blockedControlPaths, sign ∉ Utf8.encode c := by decide
        exact hall control hcontrol
      have hspells := spells_of_sign_notMem (hsub ▸ hclean)
      rw [hsub] at hspells
      rw [decodeUriComponent, decodeBytes_of_spells hspells, Option.bind_some,
        Utf8.decode_encode] at hdecoded
      exact hallowed (Option.some.inj hdecoded ▸ hcontrol)
  · cases hforward

example : normalizePath (ascii "/api/transcode/session/x\\.%2E/../grant") =
    ascii "/api/transcode/grant" := by decide +kernel

/-- **The edge resolves dot segments as a URL is parsed**: it comes to the same path, it leaves
nothing to resolve, what is forwarded is what the gates have seen, and the control paths of the
transcoder are not reached. -/
theorem normalizePath_whatwg (url : UrlWriter) (rest : List UInt8) :
    parsePath plainWriter.special (slash :: rest) = normalizePath (slash :: rest) ∧
    parsePath url.special (slash :: rest) = encode url.special (normalizePath (slash :: rest)) ∧
    (∀ path out, removeDotSegments path = some out → removeDotSegments out = none) ∧
    (∀ forwarded, forwardTranscode url.special (normalizePath (slash :: rest)) = some forwarded →
      forwarded = encode url.special
        (apiTranscode ++ transcodeSubpath (normalizePath (slash :: rest))) ∧
      ∀ control ∈ blockedControlPaths,
        Percent.decode forwarded ≠ apiTranscode ++ Utf8.encode control) := by
  refine ⟨?_, parsePath_eq url rest, ?_, ?_⟩
  · rw [parsePath_eq, encode_plain]
  · intro path out hout
    have hnone := removeDotSegments_normalizePath path
    rw [normalizePath, hout, Option.getD_some] at hnone
    exact hnone
  · intro forwarded hforward
    refine ⟨?_, fun control => decode_forwardTranscode url hforward⟩
    rw [forwardTranscode] at hforward
    split at hforward
    · split at hforward
      · cases hforward
      · obtain rfl := Option.some.inj hforward
        exact parsePath_transcode url _
    · cases hforward

end EmeraldExchange.Gateway
