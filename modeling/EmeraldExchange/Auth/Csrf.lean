import EmeraldExchange.Auth.Reconcile
import EmeraldExchange.Lib.Words

/-!
# The origin gate

`crates/auth/src/csrf.rs`: a browser attaches the session cookie to any request, so a request
that changes something must come from a trusted origin or from the own host, unless it carries
nothing a browser attaches. The gate decides that from the headers it scans itself, and a route
behind it reads the session with `Auth.readCookie`. This file shows that the two
agree: what is let through for want of a cookie has none that can be read
(`readNamedCookie_of_not_hasCookieValue`).

One pass has another reason. Outside production an empty list of allowed origins lets every
request through, whatever it carries.

The parser of an `Origin` is third-party code, and a parameter.
-/

namespace EmeraldExchange.Auth.Csrf

/-! ### Requests -/

inductive Method
  | get
  | head
  | options
  | post
  | put
  | patch
  | delete
  | other (name : String)
  deriving DecidableEq

def Method.stateChanging : Method → Bool
  | .post | .put | .patch | .delete => true
  | _ => false

/-- A request, as far as the gate looks at it. -/
structure Request where
  method : Method
  path : List Char
  query : Option (List Char)
  headers : HeaderMap
  deriving DecidableEq

/-- The fields of the config the gate reads. -/
structure Config where
  allowedOrigins : List (List Char)
  isProd : Bool
  deriving DecidableEq

/-- An absolute address, as far as an `Origin` is one. -/
structure OriginUri where
  scheme : Option (List Char)
  host : Option (List Char)
  port : Option ℕ
  deriving DecidableEq

inductive Verdict
  | next
  | forbidden (reason : String)
  deriving DecidableEq

/-! ### The scans of the headers -/

/-- The trimmed text of the first value of a header; one that is not ASCII reads as absent. -/
def headerStr (headers : HeaderMap) (name : String) : Option (List Char) :=
  ((headers.get name).bind headerText).map (trimMatches blank)

def hasCookieValue (headers : HeaderMap) : Bool :=
  (headers.getAll "cookie").any fun v => !(trimMatches asciiSpace v).isEmpty

def bearerOnly (headers : HeaderMap) : Bool :=
  (headers.get "authorization").any (fun v => bearerScheme.isPrefixOf (trimMatches asciiSpace v)) &&
    !hasCookieValue headers

/-- A key and its value, which is empty without the sign. -/
def splitPair (kv : List Char) : List Char × List Char :=
  (kv.takeWhile (· ≠ '='), (kv.dropWhile (· ≠ '=')).drop 1)

/-- The first `t` of a query. -/
def queryToken (query : List Char) : Option (List Char) :=
  (((query.splitOn '&').map splitPair).find? fun kv => kv.1 = ['t']).map Prod.snd

/-- `TOKEN_AUTH_PREFIXES` -/
def tokenAuthPrefixes : List (List Char) := ["/api/transcode/session/".toList]

/-- A stream token and no cookie, on a route that authenticates by one. -/
def streamTokenOnly (req : Request) : Bool :=
  ((req.query.bind queryToken).any fun t => !t.isEmpty) && !hasCookieValue req.headers &&
    tokenAuthPrefixes.any fun p => p.isPrefixOf req.path

/-- `NATIVE_BOOTSTRAP_PATHS` -/
def nativeBootstrapPaths : List (List Char) :=
  ["/api/auth/device/poll".toList, "/api/auth/apple".toList, "/api/auth/google".toList,
    "/api/auth/device/link/start".toList, "/api/auth/device/link/poll".toList,
    "/api/auth/workos/native/start".toList, "/api/auth/workos/native".toList]

/-- A mint of a first token by the native app, with neither cookie nor origin. -/
def nativeBootstrap (req : Request) : Bool :=
  (req.headers.getAll "cookie").isEmpty && (req.headers.getAll "origin").isEmpty &&
    nativeBootstrapPaths.contains req.path

/-! ### The gate -/

section gate

variable (parse : List Char → Option OriginUri) (config : Config)

def defaultPort (scheme : List Char) : Option ℕ :=
  if scheme = "http".toList ∨ scheme = "ws".toList then some 80
  else if scheme = "https".toList ∨ scheme = "wss".toList then some 443
  else none

/-- The host of an address in lower case, with its port unless the scheme stands for it. -/
def hostOf (scheme name : List Char) (port : Option ℕ) : List Char :=
  let lower := name.map Char.toLower
  match port with
  | some p => if some p ≠ defaultPort scheme then lower ++ ':' :: Nat.toDigits 10 p else lower
  | none => lower

/-- **The origin is the own host.** -/
def sameHost (origin host : Option (List Char)) : Bool :=
  match origin, host with
  | some origin, some host =>
    match parse origin with
    | some ⟨some scheme, some name, port⟩ => hostOf scheme name port = host
    | _ => false
  | _, _ => false

def trustedOrigin (origin : Option (List Char)) : Bool :=
  origin.any fun o => config.allowedOrigins.contains o

def originRejection (origin : Option (List Char)) : Option String :=
  if config.allowedOrigins.isEmpty then
    if config.isProd then some "csrf_misconfigured" else none
  else if trustedOrigin config origin then none
  else some "bad_origin"

def gate (req : Request) : Verdict :=
  let origin := headerStr req.headers "origin"
  if sameHost parse origin (headerStr req.headers "host") then .next
  else match originRejection config origin with
    | none => .next
    | some reason => .forbidden reason

/-- **`require_safe_origin`**: the check, for what changes something and may ride a cookie. -/
def requireSafeOrigin (req : Request) : Verdict :=
  if !req.method.stateChanging || bearerOnly req.headers || streamTokenOnly req ||
      nativeBootstrap req then .next
  else gate parse config req

/-- **`require_trusted_origin`**: the check, for reads with side effects. -/
def requireTrustedOrigin (req : Request) : Verdict :=
  if bearerOnly req.headers then .next else gate parse config req

end gate

/-! ### The two readers of the cookie header -/

section cookie

variable {headers : HeaderMap}

theorem forall_of_trimMatches_eq_nil {α : Type} {p : α → Bool} {l : List α}
    (h : trimMatches p l = []) : ∀ a ∈ l, p a = true := by
  obtain ⟨x, y, hl, hx, hy⟩ := exists_trim p l
  rw [h, List.nil_append] at hl
  intro a ha
  rw [hl] at ha
  exact (List.mem_append.mp ha).elim (hx a) (hy a)

theorem equals_not_mem_of_blank {value : List UInt8} {text : List Char}
    (hblank : ∀ b ∈ value, asciiSpace b = true) (htext : headerText value = some text) :
    '=' ∉ text := by
  intro hmem
  rw [headerText] at htext
  split at htext
  · obtain rfl := Option.some.inj htext
    obtain ⟨b, hb, heq⟩ := List.mem_map.mp hmem
    have hspace := hblank b hb
    simp only [asciiSpace, Bool.or_eq_true, decide_eq_true_eq] at hspace
    rcases hspace with (((rfl | rfl) | rfl) | rfl) | rfl <;> exact absurd heq (by decide)
  · cases htext

/-- **Without a cookie header that is not blank no cookie can be read**, of any name. -/
theorem readNamedCookie_of_not_hasCookieValue (h : hasCookieValue headers = false)
    (name : List Char) : readNamedCookie headers name = none := by
  have hpairs : ∀ pair ∈ ((headers.getAll "cookie").filterMap headerText).flatMap (·.splitOn ';'),
      '=' ∉ pair := by
    rintro pair hpair hmem
    obtain ⟨text, htext, hsplit⟩ := List.mem_flatMap.mp hpair
    obtain ⟨value, hvalue, hread⟩ := List.mem_filterMap.mp htext
    have hblank : trimMatches asciiSpace value = [] := by
      have := List.any_eq_false.mp h value hvalue
      simpa using this
    exact equals_not_mem_of_blank (forall_of_trimMatches_eq_nil hblank) hread
      (Words.mem_piece hsplit _ hmem).2
  have hnone : (((headers.getAll "cookie").filterMap headerText).flatMap (·.splitOn ';')).filter
      (fun pair => '=' ∈ pair && trimMatches blank (pair.takeWhile (· ≠ '=')) = name) = [] := by
    rw [List.filter_eq_nil_iff]
    rintro pair hpair hpass
    simp [hpairs pair hpair] at hpass
  simp only [readNamedCookie, hnone, List.map_nil, List.find?_nil]

theorem readNamedCookie_of_getAll_eq_nil (h : headers.getAll "cookie" = []) (name : List Char) :
    readNamedCookie headers name = none := by
  refine readNamedCookie_of_not_hasCookieValue ?_ name
  rw [hasCookieValue, h, List.any_nil]

end cookie

/-! ### What the gate lets through -/

section pass

variable {parse : List Char → Option OriginUri} {config : Config} {req : Request}

/-- **What the check lets through**: the own host, a trusted origin, and anything where no list
is kept outside production. -/
theorem gate_eq_next_iff : gate parse config req = .next ↔
    sameHost parse (headerStr req.headers "origin") (headerStr req.headers "host") = true ∨
      trustedOrigin config (headerStr req.headers "origin") = true ∨
      config.allowedOrigins = [] ∧ config.isProd = false := by
  rw [gate]
  by_cases hsame :
      sameHost parse (headerStr req.headers "origin") (headerStr req.headers "host") = true
  · simp [hsame]
  rcases config with ⟨origins, isProd⟩
  cases origins with
  | nil => cases isProd <;> simp [hsame, originRejection, trustedOrigin]
  | cons o os =>
    by_cases htrusted : trustedOrigin ⟨o :: os, isProd⟩ (headerStr req.headers "origin") = true
    · simp [hsame, originRejection, htrusted]
    · simp [hsame, originRejection, htrusted]

theorem readNamedCookie_of_exempt
    (h : (bearerOnly req.headers || streamTokenOnly req || nativeBootstrap req) = true)
    (name : List Char) : readNamedCookie req.headers name = none := by
  simp only [Bool.or_eq_true] at h
  rcases h with (h | h) | h
  · refine readNamedCookie_of_not_hasCookieValue ?_ name
    simp only [bearerOnly, Bool.and_eq_true, Bool.not_eq_true'] at h
    exact h.2
  · refine readNamedCookie_of_not_hasCookieValue ?_ name
    simp only [streamTokenOnly, Bool.and_eq_true, Bool.not_eq_true'] at h
    exact h.1.2
  · refine readNamedCookie_of_getAll_eq_nil ?_ name
    simp only [nativeBootstrap, Bool.and_eq_true, List.isEmpty_iff] at h
    exact h.1.1

/-- **The exemptions and the cookie reader agree.** Where a list of origins is kept, or in
production, what changes something and is let through without the own host or a trusted origin
carries no session that can be read; and so does every request the stricter gate lets through.
Outside production an empty list lets everything through. -/
theorem no_cookie_of_next (parse : List Char → Option OriginUri) (config : Config)
    (req : Request) (hpass : requireSafeOrigin parse config req = .next ∧
      req.method.stateChanging = true ∨ requireTrustedOrigin parse config req = .next)
    (hsame : sameHost parse (headerStr req.headers "origin") (headerStr req.headers "host") = false)
    (htrusted : trustedOrigin config (headerStr req.headers "origin") = false)
    (hkept : config.allowedOrigins ≠ [] ∨ config.isProd = true) :
    readCookie req.headers = none := by
  have hgate : gate parse config req ≠ .next := by
    rw [Ne, gate_eq_next_iff, hsame, htrusted]
    rintro (h | h | ⟨hnil, hprod⟩)
    · cases h
    · cases h
    · rcases hkept with h | h
      · exact h hnil
      · rw [hprod] at h
        cases h
  have hexempt : (bearerOnly req.headers || streamTokenOnly req || nativeBootstrap req) = true := by
    by_contra hnot
    rw [Bool.not_eq_true, Bool.or_eq_false_iff, Bool.or_eq_false_iff] at hnot
    rcases hpass with ⟨hpass, hchanges⟩ | hpass
    · rw [requireSafeOrigin, hchanges, hnot.1.1, hnot.1.2, hnot.2] at hpass
      exact hgate hpass
    · rw [requireTrustedOrigin, hnot.1.1] at hpass
      exact hgate hpass
  rw [readCookie, readNamedCookie_of_exempt hexempt, Option.map_none]

/-- A call of the app with its token and no cookie, where one origin is allowed. -/
theorem no_cookie_of_next_bearer : readCookie [("authorization", bearerScheme ++ [0x78])] = none :=
  no_cookie_of_next (fun _ => none) ⟨["https://a.tv".toList], true⟩
    ⟨.post, "/api/x".toList, none, [("authorization", bearerScheme ++ [0x78])]⟩
    (.inl ⟨by rfl, rfl⟩) rfl rfl (.inl (List.cons_ne_nil _ _))

/-- The headers of a form that another site posts: its origin (`https://b.tv`), the host
(`a.tv`), and the session cookie (`eex.session=x`) the browser attaches. -/
def crossSite : HeaderMap :=
  [("origin", [104, 116, 116, 112, 115, 58, 47, 47, 98, 46, 116, 118]),
    ("host", [97, 46, 116, 118]),
    ("cookie", [101, 101, 120, 46, 115, 101, 115, 115, 105, 111, 110, 61, 120])]

/-- **Outside production an empty list lets a cookie through** from another site. -/
theorem cookie_passes_empty_list :
    let req : Request := ⟨.post, ['/'], none, crossSite⟩
    let parse := fun _ => some ⟨some ['h', 't', 't', 'p', 's'], some ['b', '.', 't', 'v'], none⟩
    requireSafeOrigin parse ⟨[], false⟩ req = .next ∧
      sameHost parse (headerStr req.headers "origin") (headerStr req.headers "host") = false ∧
      trustedOrigin ⟨[], false⟩ (headerStr req.headers "origin") = false ∧
      readCookie req.headers = some "x" := by
  have hread : readNamedCookie crossSite "eex.session".toList = some ['x'] := by decide +kernel
  refine ⟨by decide +kernel, by decide +kernel, rfl, ?_⟩
  rw [readCookie, hread]
  rfl

end pass

end EmeraldExchange.Auth.Csrf
