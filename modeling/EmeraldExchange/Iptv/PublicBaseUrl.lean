import EmeraldExchange.Auth.Session
import EmeraldExchange.Lib.Url
import EmeraldExchange.Lib.Words

/-!
# The base of minted links

The links in a playlist begin with the host that the request was made to, as the proxy in front of
the server forwards it. A host of the caller's own choosing must not get into them, as they have
tokens in their queries: it is put there only if it is the host of an allowed origin or a subdomain
of one, and otherwise an allowed origin takes its place.

Whether it is one is judged by how the text ends, after its port is dropped. A client reads the link
as a URL (`Url.readUrl`), and for one that begins with another host and puts the
allowed one into its fragment, its query or behind a slash, the two are not the same. They are the
same where the text is read as a host and a port by itself
(`allowedHost_of_hostPort`).
-/

namespace EmeraldExchange.Iptv.PublicBaseUrl

open Url
open Auth (HeaderMap headerText trimMatches whiteSpace)

/-! ### What the code does -/

section code

variable (P : HostParser) (headers : HeaderMap) (allowedOrigins : List (List Char))

def header (name : String) : Option (List Char) := (headers.get name).bind headerText

def firstValue (v : Option (List Char)) : List Char :=
  trimMatches whiteSpace ((v.map fun v => v.takeWhile (· ≠ ',')).getD [])

/-- A host without the digits after its last colon. -/
def hostname (lower : List Char) : List Char :=
  let digits := (lower.reverse.takeWhile (· ≠ ':')).reverse
  if ':' ∈ lower ∧ digits ≠ [] ∧ digits.all Char.isDigit then
    lower.take (lower.length - (digits.length + 1))
  else lower

/-- **`is_allowed_public_host`**; the origins are `http` or `https` URLs. -/
def isAllowedPublicHost (host : List Char) : Bool :=
  allowedOrigins.any fun origin =>
    match readUrl P origin with
    | some u =>
      let o := u.host.map Char.toLower
      hostname (host.map Char.toLower) = o ||
        ('.' :: o).isSuffixOf (hostname (host.map Char.toLower))
    | none => false

def requestHost : List Char := (header headers "host").getD "localhost".toList

def forwardedProto : List Char :=
  (firstValue (header headers "x-forwarded-proto")).map Char.toLower

def proto : List Char :=
  if forwardedProto headers = "http".toList ∨ forwardedProto headers = "https".toList then
    forwardedProto headers
  else "http".toList

/-- The host that is put into links if it is allowed. -/
def publicHost : List Char :=
  let forwarded := firstValue (header headers "x-forwarded-host")
  let host := if forwarded.isEmpty then firstValue (header headers "host") else forwarded
  if host.isEmpty || host.any fun c => whiteSpace c || c = '/' || c = '\\' then requestHost headers
  else host

/-- **`public_base_url`** -/
def publicBaseUrl : List Char :=
  if allowedOrigins.isEmpty || isAllowedPublicHost P allowedOrigins (publicHost headers) then
    proto headers ++ "://".toList ++ publicHost headers
  else
    (allowedOrigins.findSome? fun o => (readUrl P o).map HttpUrl.origin).getD
      (proto headers ++ "://".toList ++ requestHost headers)

end code

/-! ### What is asked for -/

section spec

variable (P : HostParser) (headers : HeaderMap) (allowedOrigins : List (List Char))

/-- The host of an allowed origin, or a subdomain of one. -/
def AllowedHost (host : List Char) : Prop :=
  ∃ origin ∈ allowedOrigins, ∃ u, readUrl P origin = some u ∧
    (host = u.host ∨ '.' :: u.host <:+ host)

def IsOrigin (base : List Char) : Prop :=
  ∃ (scheme : Scheme) (s : List Char), base = scheme.text ++ "://".toList ++ s ∧
    (hostPort P s).isSome = true

/-- **Links stay on an allowed host**: they begin with an origin, and whatever path comes after it,
the host that is read is an allowed one. -/
def MintsAllowed : Prop :=
  IsOrigin P (publicBaseUrl P headers allowedOrigins) ∧
    ∀ path, ∃ u, readUrl P (publicBaseUrl P headers allowedOrigins ++ '/' :: path) = some u ∧
      AllowedHost P allowedOrigins u.host

end spec

/-! ### A host and its name -/

section hosts

variable {P : HostParser} {allowedOrigins : List (List Char)} {s host : List Char} {port : Option ℕ}

theorem hostname_of_parse (h : P.parse s = some host) : hostname s = s := by
  rw [hostname]
  split
  · next hdigits =>
    -- an address in brackets does not end with a digit
    obtain ⟨a, rfl, -⟩ := P.bracketed h (.inl hdigits.1)
    obtain ⟨-, -, hall⟩ := hdigits
    have hlast : ']' ∈ (('[' :: (a ++ [']'])).reverse.takeWhile (· ≠ ':')).reverse := by
      rw [List.mem_reverse, List.reverse_cons, List.reverse_append, List.reverse_singleton,
        List.singleton_append, List.cons_append, List.takeWhile_cons_of_pos (by decide)]
      exact List.mem_cons_self
    exact absurd (List.all_eq_true.mp hall _ hlast) (by decide)
  · rfl

theorem hostname_append {digits : List Char} (hne : digits ≠ [])
    (hdigits : ∀ c ∈ digits, c.isDigit = true) : hostname (s ++ ':' :: digits) = s := by
  have hcolon : ∀ c ∈ digits.reverse, (decide (c ≠ ':')) = true := by
    intro c hc
    refine decide_eq_true ?_
    rintro rfl
    exact absurd (hdigits _ (List.mem_reverse.mp hc)) (by decide)
  have htake : ((s ++ ':' :: digits).reverse.takeWhile (· ≠ ':')).reverse = digits := by
    rw [List.reverse_append, List.reverse_cons, List.append_assoc, List.singleton_append,
      List.takeWhile_append_of_pos hcolon, List.takeWhile_cons_of_neg (by decide), List.append_nil,
      List.reverse_reverse]
  rw [hostname]
  simp only [htake]
  rw [if_pos ⟨by simp, hne, List.all_eq_true.mpr hdigits⟩]
  simp

theorem not_host_append_colon (h : P.parse (s ++ [':']) = some host) : False := by
  obtain ⟨a, ha, -⟩ := P.bracketed h (.inl (by simp))
  rw [← List.cons_append] at ha
  exact absurd (List.append_inj_right' ha rfl) (by decide)

/-- **What is allowed by its end is an allowed host where it is read by itself.** -/
theorem allowedHost_of_hostPort (hallowed : isAllowedPublicHost P allowedOrigins s = true)
    (h : hostPort P s = some (host, port)) : AllowedHost P allowedOrigins host := by
  obtain ⟨origin, horigin, hmatch⟩ := List.any_eq_true.mp hallowed
  cases hu : readUrl P origin with
  | none =>
    rw [hu] at hmatch
    cases hmatch
  | some u =>
    have hhost := (of_readUrl hu).1
    simp only [hu, P.lower_host hhost, Bool.or_eq_true, decide_eq_true_eq,
      List.isSuffixOf_iff_suffix] at hmatch
    refine ⟨origin, horigin, u, hu, ?_⟩
    obtain ⟨name, digits, hname, hport, hs⟩ := exists_of_hostPort h
    have hlower := (P.parse_lower name).trans hname
    -- a host with a colon that no port follows does not end with an allowed one
    have hhostname : hostname (s.map Char.toLower) = name.map Char.toLower := by
      rcases hs with ⟨rfl, -⟩ | rfl
      · exact hostname_of_parse hlower
      · have hdigits := digits_of_readPort hport
        have hmap : (name ++ ':' :: digits).map Char.toLower =
            name.map Char.toLower ++ ':' :: digits := by
          rw [List.map_append, List.map_cons, show Char.toLower ':' = ':' by decide,
            List.map_congr_left fun c hc => Words.toLower_of_isDigit (hdigits c hc), List.map_id']
        rw [hmap] at hmatch ⊢
        by_cases hne : digits = []
        · have hcolon : hostname (name.map Char.toLower ++ [':']) =
              name.map Char.toLower ++ [':'] := by
            rw [hostname, if_neg]
            rintro ⟨-, hdigits, -⟩
            exact hdigits (by simp)
          rw [hne, hcolon] at hmatch
          have hsuffix : u.host <:+ name.map Char.toLower ++ [':'] := by
            rcases hmatch with heq | hsuffix
            · exact heq ▸ List.suffix_rfl
            · exact (List.suffix_cons '.' u.host).trans hsuffix
          rcases List.suffix_concat_iff.mp hsuffix with hnil | ⟨o, ho, -⟩
          · exact absurd hnil (ne_nil_of_parse hhost)
          · rw [ho] at hhost
            exact (not_host_append_colon hhost).elim
        · exact hostname_append hne hdigits
    rw [hhostname] at hmatch
    rcases hmatch with heq | ⟨t, ht⟩
    · rw [heq, hhost] at hlower
      exact .inl (Option.some.inj hlower).symm
    · rw [← ht] at hlower
      obtain ⟨s', rfl⟩ := P.subdomain hhost hlower
      exact .inr ⟨s', rfl⟩

end hosts

/-! ### Links -/

section links

variable {P : HostParser} {headers : HeaderMap} {allowedOrigins : List (List Char)}

theorem exists_proto (headers : HeaderMap) : ∃ scheme : Scheme, proto headers = scheme.text := by
  rw [proto]
  split
  · next h =>
    rcases h with h | h
    · exact ⟨.http, h⟩
    · exact ⟨.https, h⟩
  · exact ⟨.http, rfl⟩

theorem text_append_inj {a b : Scheme} {s t : List Char}
    (h : a.text ++ "://".toList ++ s = b.text ++ "://".toList ++ t) : s = t := by
  cases a <;> cases b
  · exact List.append_cancel_left h
  · exact absurd (congrArg (·[4]?) h) (by simp [Scheme.text])
  · exact absurd (congrArg (·[4]?) h) (by simp [Scheme.text])
  · exact List.append_cancel_left h

/-- **Links stay on an allowed host exactly if a host that passes for one is a host**, and perhaps a
port, and nothing else. -/
theorem mintsAllowed_iff (P : HostParser) (headers : HeaderMap) (allowedOrigins : List (List Char))
    (hne : allowedOrigins ≠ []) (hparse : ∀ o ∈ allowedOrigins, (readUrl P o).isSome = true) :
    MintsAllowed P headers allowedOrigins ↔
      (isAllowedPublicHost P allowedOrigins (publicHost headers) = true →
        (hostPort P (publicHost headers)).isSome = true) := by
  obtain ⟨scheme, hscheme⟩ := exists_proto headers
  have hempty : allowedOrigins.isEmpty = false := by
    rwa [Bool.eq_false_iff, Ne, List.isEmpty_iff]
  by_cases hallowed : isAllowedPublicHost P allowedOrigins (publicHost headers) = true
  · -- the host is put into the link as it is
    have hbase : publicBaseUrl P headers allowedOrigins =
        scheme.text ++ "://".toList ++ publicHost headers := by
      rw [publicBaseUrl, hallowed, hempty, Bool.false_or, if_pos rfl, hscheme]
    rw [MintsAllowed, hbase]
    constructor
    · rintro ⟨⟨scheme', s, heq, hs⟩, -⟩ -
      rwa [text_append_inj heq]
    · intro h
      have hport := h hallowed
      refine ⟨⟨scheme, _, rfl, hport⟩, fun path => ?_⟩
      obtain ⟨⟨host, port⟩, hport⟩ := Option.isSome_iff_exists.mp hport
      exact ⟨_, readUrl_of_hostPort scheme hport path, allowedHost_of_hostPort hallowed hport⟩
  · -- the first of the allowed origins takes its place
    refine iff_of_true ?_ fun h => absurd h hallowed
    obtain ⟨o, rest, rfl⟩ := List.exists_cons_of_ne_nil hne
    obtain ⟨u, hu⟩ := Option.isSome_iff_exists.mp (hparse o List.mem_cons_self)
    have hbase : publicBaseUrl P headers (o :: rest) = u.origin := by
      rw [publicBaseUrl, Bool.eq_false_iff.mpr hallowed, hempty, Bool.false_or,
        if_neg Bool.false_ne_true, List.findSome?_cons, hu]
      rfl
    rw [MintsAllowed, hbase]
    refine ⟨⟨u.scheme, _, origin_eq u, ?_⟩, fun path => ⟨u, readUrl_origin hu path, ?_⟩⟩
    · rw [hostPort_append (of_readUrl hu).1 (of_readUrl hu).2.1]
      rfl
    · exact ⟨o, List.mem_cons_self, u, hu, .inl rfl⟩

end links

/-! ### Hosts of letters and digits -/

def isHostChar (c : Char) : Bool := c.isAlphanum || c = '-' || c = '.'

theorem isHostChar_toLower (c : Char) : isHostChar c.toLower = isHostChar c :=
  Words.toLower_eq isHostChar (by decide) c

theorem map_toLower_toLower (s : List Char) :
    (s.map Char.toLower).map Char.toLower = s.map Char.toLower := by
  rw [List.map_map]
  exact List.map_congr_left fun c _ => Words.toLower_eq Char.toLower (by decide) c

def readName (s : List Char) : Option (List Char) :=
  if s ≠ [] ∧ s.all isHostChar = true then some (s.map Char.toLower) else none

theorem readName_eq_some {s host : List Char} :
    readName s = some host ↔ s ≠ [] ∧ s.all isHostChar = true ∧ s.map Char.toLower = host := by
  rw [readName, Option.ite_none_right_eq_some, and_assoc, Option.some_inj]

theorem readName_lower (s : List Char) : readName (s.map Char.toLower) = readName s := by
  have hall : (s.map Char.toLower).all isHostChar = s.all isHostChar := by
    rw [List.all_map]
    exact congrArg s.all (funext isHostChar_toLower)
  rw [readName, readName, map_toLower_toLower, hall]
  simp

/-- Hosts that are names of letters, digits, dashes and full stops. -/
def plainHosts : HostParser where
  parse := readName
  parse_nil := rfl
  parse_lower := readName_lower
  parse_host h := by
    obtain ⟨hne, hall, rfl⟩ := readName_eq_some.mp h
    rwa [readName_lower]
  lower_host h := by
    obtain ⟨hne, hall, rfl⟩ := readName_eq_some.mp h
    exact map_toLower_toLower _
  subdomain {s host sub} hhost h := by
    obtain ⟨-, -, hlower⟩ := readName_eq_some.mp hhost
    obtain ⟨-, -, rfl⟩ := readName_eq_some.mp h
    refine ⟨s.map Char.toLower, ?_⟩
    rw [List.map_append, List.map_cons, hlower]
    rfl
  bracketed h hmem := by
    obtain ⟨-, hall, -⟩ := readName_eq_some.mp h
    rcases hmem with hmem | hmem
    · exact absurd (List.all_eq_true.mp hall _ hmem) (by decide)
    · exact absurd (List.all_eq_true.mp hall _ hmem) (by decide)
  plain {s host} h c hc := by
    obtain ⟨-, hall, -⟩ := readName_eq_some.mp h
    have hchar := List.all_eq_true.mp hall c hc
    have hne : ∀ d : Char, isHostChar d = false → c ≠ d := by
      rintro d hd rfl
      exact absurd hchar (Bool.eq_false_iff.mp hd)
    refine ⟨?_, ?_, hne '@' rfl⟩
    · simp [endsAuthority, hne '/' rfl, hne '\\' rfl, hne '?' rfl, hne '#' rfl]
    · simp [isBreak, hne '\t' rfl, hne '\n' rfl, hne '\r' rfl]

def forwarded (host : String) : HeaderMap :=
  [("host", "internal.local:3001".toList.map fun c => c.toUInt8),
    ("x-forwarded-proto", "https".toList.map fun c => c.toUInt8),
    ("x-forwarded-host", host.toList.map fun c => c.toUInt8)]

theorem mintsAllowed_subdomain :
    MintsAllowed plainHosts (forwarded "api.allowed.example:443")
      ["https://allowed.example".toList] :=
  (mintsAllowed_iff _ _ _ (by decide) (fun o ho => by
    obtain rfl := List.mem_singleton.mp ho
    rfl)).mpr fun _ => rfl

/-- **A playlist's links lead to a foreign host**, with the allowed one in their fragment. -/
theorem not_mintsAllowed_fragment :
    ¬ MintsAllowed plainHosts (forwarded "evil.com#.allowed.example")
      ["https://allowed.example".toList] := by
  rintro ⟨-, h⟩
  obtain ⟨u, hu, origin, horigin, v, hv, hhost⟩ := h []
  obtain rfl := List.mem_singleton.mp horigin
  have hfragment : readUrl plainHosts (publicBaseUrl plainHosts
      (forwarded "evil.com#.allowed.example") ["https://allowed.example".toList] ++ ['/']) =
      some ⟨.https, "evil.com".toList, none⟩ := rfl
  have hallowed : readUrl plainHosts "https://allowed.example".toList =
      some ⟨.https, "allowed.example".toList, none⟩ := rfl
  obtain rfl := Option.some.inj (hfragment.symm.trans hu)
  obtain rfl := Option.some.inj (hallowed.symm.trans hv)
  exact absurd hhost (by decide)

end EmeraldExchange.Iptv.PublicBaseUrl
