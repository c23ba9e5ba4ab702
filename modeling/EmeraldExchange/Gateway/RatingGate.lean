import EmeraldExchange.Contracts.StreamToken
import EmeraldExchange.Gateway.JsNumber
import EmeraldExchange.Gateway.MediaPath
import EmeraldExchange.Gateway.Stores

/-!
# The rating gate of the media library

A member may be held to a content rating. The library knows nothing of it, so the gateway looks at
the path of each request: the bytes, the subtitles and the chapters of a title need the member's
rating, or a token that was granted for that title. The gate reads all escapes of the path at once
and then finds the kind and the identifier by itself; the router of the library cuts the path first
and reads the parameters alone. On every path that reaches a title the two find the same kind and
the same number (`gated`).
-/

namespace EmeraldExchange.Gateway.Media

open Auth Contracts MediaCore Words

/-! ### Ratings -/

/-- A kind of title, as the ratings tell them apart. -/
inductive Title
  | movie | episode | track | video
  deriving DecidableEq

def Title.parse : String → Option Title
  | "movie" => some .movie
  | "episode" => some .episode
  | "track" => some .track
  | "video" => some .video
  | _ => none

/-- One scale for the ratings of movies and of television. -/
def scale : List (String × ℕ) :=
  [("G", 0), ("TV-Y", 0), ("TV-G", 0), ("PG", 1), ("TV-Y7", 1), ("TV-PG", 1), ("PG-13", 2),
    ("TV-14", 2), ("R", 3), ("TV-MA", 3), ("NC-17", 4)]

def severity (rating : String) : Option ℕ :=
  scale.lookup (String.ofList ((jsTrim rating).toList.map Char.toUpper))

/-- Without a cap everything is allowed, and under one whatever is on the scale and not above. -/
def ratingAllowed (certification cap : Option String) : Bool :=
  match cap.bind severity with
  | none => true
  | some cap => (severity (certification.getD "")).any fun s => s ≤ cap

def effectiveCap (p : Policy) : Option String :=
  (p.maxContentRating.map Subtype.val).or (if p.kid then some "PG" else none)

/-! ### What the gate asks -/

abbrev Refusal := ℕ × String

/-- **What a request finds**: the caller's session, if there is one, the members and their policies,
and the certifications of the titles. -/
structure Env where
  primitives : Primitives
  streamTokenSecret : List UInt8
  now : Int64
  session : Except Refusal Session
  requireMember : String → Except Refusal Unit
  policy : String → Except Refusal Policy
  certification : Title → Binary64 → Except Unit (Option String)

variable (env : Env)

/-- **Whether the caller's cap forbids a title**; what cannot be told is forbidden. -/
def ratingBlocked (session : Session) (kind : Title) (id : Binary64) : Except Refusal Bool :=
  if session.role = .admin ∨ kind = .track then .ok false
  else
    match env.policy session.sub with
    | .error e => .error e
    | .ok policy =>
      match effectiveCap policy with
      | none => .ok false
      | some cap =>
        if kind = .video then .ok true
        else
          match env.certification kind id with
          | .ok cert => .ok (!ratingAllowed cert (some cap))
          | .error () => .ok true

/-- Whether the caller's cap forbids what has no ratings. -/
def capBlocksUnrated (session : Session) : Except Refusal Bool :=
  if session.role = .admin then .ok false
  else (env.policy session.sub).map fun policy => (effectiveCap policy).isSome

def blocked : Refusal := (403, "rating_blocked")

/-- The check of a kind and of the text of an identifier. -/
def gateRating (session : Session) (kind id : String) : Except Refusal Unit :=
  match Title.parse kind with
  | none => .ok ()
  | some title =>
    match ratingBlocked env session title (jsStrNumber id) with
    | .ok false => .ok ()
    | .ok true => .error blocked
    | .error e => .error e

def resourceId (kind id : String) : String := "media:" ++ kind ++ ":" ++ id

/-- **Verify a token**, for one of some kinds and for a resource, and tell its holder. -/
def verify (token : String) (kinds : List StreamKind) (rid : Option String) :
    Except Refusal String :=
  match Contracts.verify env.primitives env.streamTokenSecret token.toList with
  | .error _ => .error (401, "invalid_token")
  | .ok claims =>
    match enforceTimeWindow claims env.now with
    | .error _ => .error (401, "invalid_token")
    | .ok () =>
      if !"media:".toList.isPrefixOf claims.rid.toList then .error (401, "token_kind")
      else if kinds ≠ [] ∧ claims.k ∉ kinds then .error (401, "token_kind")
      else if rid.any fun r => r ≠ claims.rid then .error (401, "token_mismatch")
      else .ok claims.sub

/-! ### The gate -/

inductive Actor
  | holder (sub : String)
  | caller (session : Session)

def queryFirst (query : List (String × String)) (key : String) : Option String :=
  (query.find? fun p => p.1 = key).map Prod.snd

/-- **The kind and the identifier** after a lead, if the kind is one of some. -/
def kindId (subpath : List Char) (lead : String) (kinds : Option (List String)) :
    Option (String × String) := do
  let rest ← (lead.toList ++ ['/']).isPrefixOf? subpath
  let kind := rest.takeWhile fun c => c ≠ '/'
  let after := (rest.dropWhile fun c => c ≠ '/').tail
  let id := after.takeWhile fun c => c ≠ '/' && c ≠ '?'
  if '/' ∈ rest ∧ kind ≠ [] ∧ id ≠ [] ∧ kinds.all fun ks => String.ofList kind ∈ ks then
    some (String.ofList kind, String.ofList id)
  else none

/-- What follows the root of the library, or a slash. -/
def subpathText (decoded : List Char) : List Char :=
  match "/api/media".toList.isPrefixOf? decoded with
  | some [] | none => ['/']
  | some rest => rest

/-- The caller, held to the rating of a title. -/
def gateTitle (kind id : String) : Except Refusal Actor :=
  match env.session with
  | .error e => .error e
  | .ok session =>
    match gateRating env session kind id with
    | .error e => .error e
    | .ok () => .ok (.caller session)

def gateToken (token kind id : String) : Except Refusal Actor :=
  match verify env token [.vod] (some (resourceId kind id)) with
  | .error e => .error e
  | .ok sub =>
    match env.requireMember sub with
    | .error e => .error e
    | .ok () => .ok (.holder sub)

def gateSession (subpath : List Char) : Except Refusal Actor :=
  match env.session with
  | .error e => .error e
  | .ok session =>
    if "/youtube/".toList.isPrefixOf subpath then
      match capBlocksUnrated env session with
      | .ok false => .ok (.caller session)
      | .ok true => .error blocked
      | .error e => .error e
    else .ok (.caller session)

/-- **The gate**, for a path and the pairs of its query. -/
def gate (path : List UInt8) (query : List (String × String)) : Except Refusal Actor :=
  match decodeUriComponent path with
  | none => .error (400, "bad_path")
  | some decoded =>
    let subpath := subpathText decoded
    match kindId subpath "/stream" none with
    | some (kind, id) =>
      match (queryFirst query "t").filter (· ≠ "") with
      | some token => gateToken env token kind id
      | none => gateTitle env kind id
    | none =>
      let subs := (kindId subpath "/subtitles" (some ["movie", "episode"])).or
        (kindId subpath "/chapters" (some ["movie", "episode", "video"]))
      match subs with
      | some (kind, id) => gateTitle env kind id
      | none => gateSession env subpath

/-- **A token of a member for the title was checked**: one for direct play, whose resource is the
kind and a numeral of the identifier. -/
def TokenChecked (query : List (String × String)) (kind : String) (id : ℤ) : Prop :=
  ∃ token claims numeral, queryFirst query "t" = some token ∧
    Contracts.verify env.primitives env.streamTokenSecret token.toList = .ok claims ∧
    enforceTimeWindow claims env.now = .ok () ∧ env.requireMember claims.sub = .ok () ∧
    claims.k = .vod ∧ claims.rid = resourceId kind numeral ∧
    Decimal.integer numeral.toList = some id

/-- **The rating of the title was checked** against the caller's cap. -/
def RatingChecked (kind : String) (id : ℤ) : Prop :=
  ∃ session title, env.session = .ok session ∧ Title.parse kind = some title ∧
    ratingBlocked env session title (.finite id) = .ok false

def kindsOf : Handler → List String
  | .stream | .chapters => ["movie", "episode", "video"]
  | .subtitles => ["movie", "episode"]

/-! ### One reading -/

theorem numeral_chars {cs : List Char} {z : ℤ} (h : Decimal.integer cs = some z) :
    cs ≠ [] ∧ ∀ c ∈ cs, (c ≠ '/' && c ≠ '?') = true := by
  obtain ⟨hplain, hne⟩ := plainChar_of_integer h
  refine ⟨hne, fun c hc => ?_⟩
  have hchar := List.all_eq_true.mp hplain c hc
  rw [Bool.and_eq_true, decide_eq_true_eq, decide_eq_true_eq]
  constructor
  · rintro rfl
    exact absurd hchar (by decide)
  · rintro rfl
    exact absurd hchar (by decide)

/-- **The gate finds the kind and the numeral** after their lead. -/
theorem kindId_eq (lead : List Char) {kind numeral tail : List Char}
    {kinds : Option (List String)}
    (hkind : kind ≠ []) (hslash : ∀ c ∈ kind, (c ≠ '/' : Bool) = true) (hnumeral : numeral ≠ [])
    (hchars : ∀ c ∈ numeral, (c ≠ '/' && c ≠ '?') = true)
    (htail : tail = [] ∨ ∃ action, tail = '/' :: action)
    (hkinds : kinds.all fun ks => String.ofList kind ∈ ks) :
    kindId (lead ++ '/' :: (kind ++ '/' :: (numeral ++ tail))) (String.ofList lead) kinds =
      some (String.ofList kind, String.ofList numeral) := by
  have hprefix : (lead ++ ['/']).isPrefixOf? (lead ++ '/' :: (kind ++ '/' :: (numeral ++ tail))) =
      some (kind ++ '/' :: (numeral ++ tail)) := by
    rw [List.isPrefixOf?_eq_some_iff_append_eq]
    simp
  have htake : (kind ++ '/' :: (numeral ++ tail)).takeWhile (fun c => c ≠ '/') = kind := by
    rw [List.takeWhile_append_of_pos hslash]
    simp
  have hdrop : ((kind ++ '/' :: (numeral ++ tail)).dropWhile fun c => c ≠ '/').tail =
      numeral ++ tail := by
    rw [List.dropWhile_append_of_pos hslash]
    simp
  have hid : (numeral ++ tail).takeWhile (fun c => c ≠ '/' && c ≠ '?') = numeral := by
    rw [List.takeWhile_append_of_pos hchars]
    rcases htail with rfl | ⟨action, rfl⟩
    · simp
    · simp
  simp only [kindId, String.toList_ofList, hprefix, Option.bind_eq_bind, Option.bind_some, htake,
    hdrop, hid]
  rw [if_pos ⟨by simp, hkind, hnumeral, hkinds⟩]

theorem kindId_eq_none {lead : String} {subpath : List Char} {kinds : Option (List String)}
    (h : (lead.toList ++ ['/']).isPrefixOf? subpath = none) : kindId subpath lead kinds = none := by
  rw [kindId, h]
  rfl

theorem subpathText_append (c : Char) (rest : List Char) :
    subpathText ("/api/media".toList ++ c :: rest) = c :: rest := by
  have hprefix : "/api/media".toList.isPrefixOf? ("/api/media".toList ++ c :: rest) =
      some (c :: rest) := List.isPrefixOf?_eq_some_iff_append_eq.mpr rfl
  rw [subpathText, hprefix]

/-! ### The checks -/

variable {env}

theorem ratingChecked_of_gateTitle {kind : String} {id : ℤ} {numeral : List Char} {actor : Actor}
    (hkind : (Title.parse kind).isSome) (hnumeral : Decimal.integer numeral = some id)
    (hid : id.natAbs ≤ 2 ^ 53)
    (h : gateTitle env kind (String.ofList numeral) = .ok actor) : RatingChecked env kind id := by
  obtain ⟨title, htitle⟩ := Option.isSome_iff_exists.mp hkind
  have hnumber : jsStrNumber (String.ofList numeral) = .finite id :=
    jsStrNumber_numeral (by rwa [String.toList_ofList]) hid
  rw [gateTitle] at h
  split at h
  · cases h
  · next session hsession =>
    refine ⟨session, title, hsession, htitle, ?_⟩
    rcases hblocked : ratingBlocked env session title (.finite id) with _ | _ | _
    · simp only [gateRating, htitle, hnumber, hblocked] at h
      cases h
    · rfl
    · simp only [gateRating, htitle, hnumber, hblocked] at h
      cases h

theorem tokenChecked_of_gateToken {query : List (String × String)} {token kind : String} {id : ℤ}
    {numeral : List Char} {actor : Actor} (htoken : queryFirst query "t" = some token)
    (hnumeral : Decimal.integer numeral = some id)
    (h : gateToken env token kind (String.ofList numeral) = .ok actor) :
    TokenChecked env query kind id := by
  rw [gateToken] at h
  split at h
  · cases h
  · next sub hsub =>
    split at h
    · cases h
    · next hmember =>
      rw [verify] at hsub
      split at hsub
      · cases hsub
      · next claims hclaims =>
        split at hsub
        · cases hsub
        · next hwindow =>
          split at hsub
          · cases hsub
          · split at hsub
            · cases hsub
            · next hk =>
              split at hsub
              · cases hsub
              · next hrid =>
                obtain rfl := Except.ok.inj hsub
                refine ⟨token, claims, String.ofList numeral, htoken, hclaims, hwindow, hmember,
                  ?_, ?_, by rwa [String.toList_ofList]⟩
                · by_contra hne
                  exact hk ⟨List.cons_ne_nil _ _, fun hmem => hne (List.mem_singleton.mp hmem)⟩
                · by_contra hne
                  exact hrid (decide_eq_true (Ne.symm hne))

theorem of_mem_kindsOf {h : Handler} {kind : String} (hkind : kind ∈ kindsOf h) :
    (Title.parse kind).isSome ∧ (∀ b ∈ ascii kind, wordByte b = true) ∧ kind.toList ≠ [] ∧
      ∀ c ∈ kind.toList, (c ≠ '/' : Bool) = true := by
  have hmem : kind ∈ ["movie", "episode", "video"] := by
    cases h
    · exact hkind
    · exact List.Sublist.subset (by decide) hkind
    · exact hkind
  have hall : (["movie", "episode", "video"].all fun k => (Title.parse k).isSome &&
      (ascii k).all wordByte && !k.toList.isEmpty && k.toList.all fun c => c ≠ '/') = true := by
    decide
  have hk := List.all_eq_true.mp hall kind hmem
  simp only [Bool.and_eq_true, Bool.not_eq_true', List.isEmpty_eq_false_iff] at hk
  exact ⟨hk.1.1.1, List.all_eq_true.mp hk.1.1.2, hk.1.2, List.all_eq_true.mp hk.2⟩

/-- **Every path that reaches a title was checked for it**, however it is spelled: when the router
of the library dispatches the path that is forwarded, and the gate has let the request through, then
a token for exactly that title was checked, or its rating was. -/
theorem gated (url : UrlWriter) (path : List UInt8) (query : List (String × String)) {h : Handler}
    {kind : String} {id : ℤ} {actor : Actor}
    (hdispatch : dispatch (url.forward (normalizePath path)) = some (h, kind, id))
    (hkind : kind ∈ kindsOf h) (hid : id.natAbs ≤ 2 ^ 53)
    (hgate : gate env (normalizePath path) query = .ok actor) :
    TokenChecked env query kind id ∨ RatingChecked env kind id := by
  obtain ⟨htitle, hword, hne, hslash⟩ := of_mem_kindsOf hkind
  obtain ⟨numeral, tail, hint, htail, hdecode⟩ := decode_of_dispatch url hdispatch hword
  obtain ⟨hnumeral, hchars⟩ := numeral_chars hint
  have hfound : ∀ (route lead : String) {kinds : Option (List String)},
      '/' :: lead.toList = route.toList → (kinds.all fun ks => kind ∈ ks) →
      kindId ('/' :: (lead.toList ++ '/' :: (kind.toList ++ '/' :: (numeral ++ tail)))) route
        kinds = some (kind, String.ofList numeral) := by
    intro route lead kinds hlead hkinds
    rw [← String.ofList_toList (s := kind)] at hkinds
    have heq := kindId_eq route.toList hne hslash hnumeral hchars htail hkinds
    rw [String.ofList_toList, String.ofList_toList, ← hlead] at heq
    exact heq
  have hrating : ∀ {actor : Actor}, gateTitle env kind (String.ofList numeral) = .ok actor →
      RatingChecked env kind id := fun h => ratingChecked_of_gateTitle htitle hint hid h
  rw [gate, hdecode] at hgate
  simp only [subpathText_append] at hgate
  cases h
  · -- the bytes of a title: a token, or else the rating
    rw [hfound "/stream" Handler.stream.lead (by decide) rfl] at hgate
    dsimp only at hgate
    split at hgate
    · next token htoken =>
      exact .inl (tokenChecked_of_gateToken (Option.filter_eq_some_iff.mp htoken).1 hint hgate)
    · exact .inr (hrating hgate)
  · -- its subtitles, for the kinds that have some
    have hmember : kind ∈ ["movie", "episode"] := hkind
    rw [kindId_eq_none rfl, hfound "/subtitles" Handler.subtitles.lead (by decide)
      (by simpa using hmember)] at hgate
    exact .inr (hrating hgate)
  · -- its chapters
    have hmember : kind ∈ ["movie", "episode", "video"] := hkind
    rw [kindId_eq_none rfl, kindId_eq_none rfl, hfound "/chapters" Handler.chapters.lead (by decide)
      (by simpa using hmember)] at hgate
    exact .inr (hrating hgate)

/-! ### Two paths -/

theorem toNat_lt_of_wordByte {b : UInt8} (h : wordByte b = true) : b.toNat < 0x80 := by
  simp only [wordByte, Bool.or_eq_true, Bool.and_eq_true, decide_eq_true_eq] at h
  rcases h with (((h | h) | h) | rfl) | rfl
  · omega
  · omega
  · omega
  · decide
  · decide

/-- A writer that leaves alone what it need not change. -/
def plainWriter : UrlWriter where
  special b := 0x80 ≤ b.toNat
  resolve path := path
  word _ h := decide_eq_false (Nat.not_le_of_lt (toNat_lt_of_wordByte h))
  slash := by decide
  sign := by decide

/-- A household with one member, who is a kid unless an admin; no title has a certification. -/
def household (role : Role) : Env where
  primitives := samplePrimitives
  streamTokenSecret := []
  now := 0
  session := .ok ⟨"plex:1", "sam", role, .plex, none⟩
  requireMember _ := .ok ()
  policy _ := .ok ⟨none, none, true⟩
  certification _ _ := .ok none

/-- `/api/media/stream/%6dovie/+7` -/
def spelledFilm : List UInt8 := ascii "/api/media/stream/%6dovie/+7"

/-- `/api/media/subtitles/video/7` -/
def videoSubtitles : List UInt8 := ascii "/api/media/subtitles/video/7"

/-- **A path that everybody leaves alone**: one without dots, of bytes that are written as they
are. -/
theorem dispatch_plainWriter {path : List UInt8} {h : Handler} {kind : String} {id : ℤ}
    (rawKind rawId : List UInt8) (idText : List Char)
    (hjoin : path = join slash (nest ++ [ascii h.lead, rawKind, rawId]))
    (hsegments : (nest ++ [ascii h.lead, rawKind, rawId]).all fun s =>
      !s.contains slash && !s.contains backslash && !isDots s)
    (hforward : apiMedia ++ subpathOf path = path)
    (hencode : Percent.encode plainWriter.special path = path) (hne : rawKind ≠ [] ∧ rawId ≠ [])
    (hkind : Percent.decode rawKind = ascii kind) (hid : Percent.decode rawId = Utf8.encode idText)
    (hint : parseI64 idText = some id) : normalizePath path = path ∧
      dispatch (plainWriter.forward path) = some (h, kind, id) := by
  have hall : ∀ s ∈ nest ++ [ascii h.lead, rawKind, rawId], Segment s := by
    intro s hs
    have hseg := List.all_eq_true.mp hsegments s hs
    simp only [Bool.and_eq_true, Bool.not_eq_true', List.contains_eq_mem,
      decide_eq_false_iff_not] at hseg
    exact ⟨hseg.1.1, hseg.1.2, hseg.2⟩
  have hdots : hasDots path = false := by
    rw [hjoin]
    exact hasDots_join hall (List.append_ne_nil_of_left_ne_nil (List.cons_ne_nil _ _) _)
  have hsplit : path.splitOn slash = nest ++ [ascii h.lead, rawKind, rawId] := by
    rw [hjoin]
    exact splitOn_join (fun s hs => (hall s hs).notSlash)
      (List.append_ne_nil_of_left_ne_nil (List.cons_ne_nil _ _) _)
  constructor
  · rw [hjoin]
    exact normalizePath_join hall
  · rw [UrlWriter.forward, hforward, UrlWriter.path, hdots, if_neg Bool.false_ne_true, hencode]
    exact dispatch_of_splitOn hsplit hne.1 hne.2 hkind hid hint

theorem decodeUriComponent_eq {path : List UInt8} {text : List Char}
    (h : decodeBytes path = some (Utf8.encode text)) : decodeUriComponent path = some text := by
  rw [decodeUriComponent, h, Option.bind_some, Utf8.decode_encode]

theorem gated_spelledFilm : TokenChecked (household .admin) [] "movie" 7 ∨
    RatingChecked (household .admin) "movie" 7 := by
  obtain ⟨hnormal, hdispatch⟩ : normalizePath spelledFilm = spelledFilm ∧
      dispatch (plainWriter.forward spelledFilm) = some (.stream, "movie", 7) :=
    dispatch_plainWriter (ascii "%6dovie") (ascii "+7") "+7".toList (by decide) (by decide)
      (by decide) (by decide) (by decide) (by decide) (by decide) (by decide)
  have hdecode : decodeUriComponent spelledFilm = some "/api/media/stream/movie/+7".toList :=
    decodeUriComponent_eq (by decide)
  have hgate : gate (household .admin) (normalizePath spelledFilm) [] =
      .ok (.caller ⟨"plex:1", "sam", .admin, .plex, none⟩) := by
    rw [hnormal, gate, hdecode]
    rfl
  exact gated plainWriter spelledFilm [] (hnormal.symm ▸ hdispatch) (by decide) (by decide) hgate

/-- **The path of a video's subtitles reaches their handler**, and the gate lets a kid through who
may not see the video. -/
theorem not_gated_videoSubtitles :
    dispatch (plainWriter.forward (normalizePath videoSubtitles)) = some (.subtitles, "video", 7) ∧
      gate (household .user) (normalizePath videoSubtitles) [] =
        .ok (.caller ⟨"plex:1", "sam", .user, .plex, none⟩) ∧
      ¬ (TokenChecked (household .user) [] "video" 7 ∨
        RatingChecked (household .user) "video" 7) := by
  obtain ⟨hnormal, hdispatch⟩ : normalizePath videoSubtitles = videoSubtitles ∧
      dispatch (plainWriter.forward videoSubtitles) = some (.subtitles, "video", 7) :=
    dispatch_plainWriter (ascii "video") (ascii "7") "7".toList (by decide) (by decide)
      (by decide) (by decide) (by decide) (by decide) (by decide) (by decide)
  have hdecode : decodeUriComponent videoSubtitles = some "/api/media/subtitles/video/7".toList :=
    decodeUriComponent_eq (by decide)
  rw [hnormal]
  refine ⟨hdispatch, ?_, ?_⟩
  · rw [gate, hdecode]
    rfl
  · rintro (⟨token, claims, numeral, htoken, -⟩ | ⟨session, title, hsession, htitle, hblocked⟩)
    · cases htoken
    · cases hsession
      cases htitle
      cases hblocked

end EmeraldExchange.Gateway.Media
