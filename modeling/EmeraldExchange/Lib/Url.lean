import EmeraldExchange.Lib.Decimal
import Mathlib.Data.List.TakeWhile

/-!
# The host of a URL

How a URL parser reads `http` and `https` URLs, as far as their host and port: white space around
the text and line breaks in it do not count; of the slashes after the scheme there may be any
number, of either kind; the authority lasts up to the next slash, question mark or number sign; what
stands before its last at-sign is a name and a password; and the port stands after the first colon
that is not in brackets.

Which host a text then names – with its percent signs, its numbers and its letters of other
alphabets – is a matter of its own, of which only some laws are needed
(`HostParser`). What is asked for is whether a text is put into a URL as its
host: it is one if it is read as a host and a port by itself, whatever path comes after it
(`readUrl_of_hostPort`).
-/

namespace EmeraldExchange.Url

/-! ### Hosts -/

def endsAuthority (c : Char) : Bool := c = '/' || c = '\\' || c = '?' || c = '#'

/-- What is removed from a URL wherever it stands. -/
def isBreak (c : Char) : Bool := c = '\t' || c = '\n' || c = '\r'

/-- **Which host a text names**, with what is relied on: letters of either case are the same; a host
names itself, in lower case; what stands before a full stop and a host is a subdomain of that host,
if it is anything; a colon or a bracket stands only in an address in brackets; and nothing that has
a meaning in a URL is part of a host. -/
structure HostParser where
  parse : List Char → Option (List Char)
  parse_nil : parse [] = none
  parse_lower : ∀ s, parse (s.map Char.toLower) = parse s
  parse_host : ∀ {s host}, parse s = some host → parse host = some host
  lower_host : ∀ {s host}, parse s = some host → host.map Char.toLower = host
  subdomain : ∀ {s host sub}, parse host = some host → parse (s ++ '.' :: host) = some sub →
    ∃ s', sub = s' ++ '.' :: host
  bracketed : ∀ {s host}, parse s = some host → ':' ∈ s ∨ '[' ∈ s →
    ∃ a, s = '[' :: (a ++ [']']) ∧ ']' ∉ a
  plain : ∀ {s host}, parse s = some host →
    ∀ c ∈ s, endsAuthority c = false ∧ isBreak c = false ∧ c ≠ '@'

variable (P : HostParser)

/-- What stands before the first colon that is not in brackets, and what after it. -/
def splitColon : Bool → List Char → List Char × Option (List Char)
  | _, [] => ([], none)
  | inside, c :: s =>
    if c = ':' && !inside then ([], some s)
    else
      let r := splitColon (c = '[' || (inside && c ≠ ']')) s
      (c :: r.1, r.2)

/-- A port, which may be left out after its colon. -/
def readPort (digits : List Char) : Option (Option ℕ) :=
  if digits = [] then some none
  else if digits.all Char.isDigit && Nat.ofDigitChars 10 digits 0 ≤ 65535 then
    some (some (Nat.ofDigitChars 10 digits 0))
  else none

/-- **A host and a port.** -/
def hostPort (s : List Char) : Option (List Char × Option ℕ) := do
  let host ← P.parse (splitColon false s).1
  let port ← readPort ((splitColon false s).2.getD [])
  return (host, port)

/-! ### URLs -/

inductive Scheme
  | http
  | https
  deriving DecidableEq

def Scheme.text : Scheme → List Char
  | .http => "http".toList
  | .https => "https".toList

def Scheme.defaultPort : Scheme → ℕ
  | .http => 80
  | .https => 443

/-- **A URL**, as far as it is read; the port is left out where it is the scheme's own. -/
structure HttpUrl where
  scheme : Scheme
  host : List Char
  port : Option ℕ
  deriving DecidableEq

/-- `ascii_serialization` of the origin of a URL. -/
def HttpUrl.origin (u : HttpUrl) : List Char :=
  u.scheme.text ++ "://".toList ++ u.host ++
    match u.port with
    | none => []
    | some port => ':' :: Decimal.text port

def isEdge (c : Char) : Bool := c.toNat ≤ 32

/-- The text of a URL without what does not count. -/
def cleaned (s : List Char) : List Char :=
  (((s.dropWhile isEdge).reverse.dropWhile isEdge).reverse).filter fun c => !isBreak c

def splitScheme (s : List Char) : Option (Scheme × List Char) :=
  if (s.take 5).map Char.toLower = "http:".toList then some (.http, s.drop 5)
  else if (s.take 6).map Char.toLower = "https:".toList then some (.https, s.drop 6)
  else none

def isSlash (c : Char) : Bool := c = '/' || c = '\\'

def authority (s : List Char) : List Char :=
  (s.dropWhile isSlash).takeWhile fun c => !endsAuthority c

def afterAt (s : List Char) : List Char := (s.reverse.takeWhile (· ≠ '@')).reverse

/-- **Read an `http` or `https` URL.** -/
def readUrl (s : List Char) : Option HttpUrl := do
  let (scheme, rest) ← splitScheme (cleaned s)
  let (host, port) ← hostPort P (afterAt (authority rest))
  return ⟨scheme, host, if port = some scheme.defaultPort then none else port⟩

/-! ### A host and a port in a URL -/

section reading

variable {P} {s host : List Char} {port : Option ℕ}

theorem splitColon_append : ∀ (inside : Bool) (s : List Char),
    s = (splitColon inside s).1 ++ ((splitColon inside s).2.elim [] fun r => ':' :: r)
  | _, [] => rfl
  | inside, c :: s => by
    rw [splitColon]
    split
    · next hc =>
      obtain rfl : c = ':' := by simpa using (Bool.and_eq_true_iff.mp hc).1
      rfl
    · exact congrArg (c :: ·) (splitColon_append _ s)

theorem splitColon_inside {a : List Char} (ha : ']' ∉ a) (t : List Char) :
    splitColon true (a ++ ']' :: t) =
      (a ++ ']' :: (splitColon false t).1, (splitColon false t).2) := by
  induction a with
  | nil => simp [splitColon]
  | cons c a ih =>
    obtain ⟨hc, ha⟩ := not_or.mp (List.mem_cons.not.mp ha)
    have hinside : (decide (c = '[') || (true && decide (c ≠ ']'))) = true := by
      simp [Ne.symm hc]
    rw [List.cons_append, splitColon, if_neg (by simp), hinside, ih ha]
    rfl

theorem splitColon_outside {a : List Char} (ha : ∀ c ∈ a, c ≠ ':' ∧ c ≠ '[') (t : List Char) :
    splitColon false (a ++ t) = (a ++ (splitColon false t).1, (splitColon false t).2) := by
  induction a with
  | nil => rfl
  | cons c a ih =>
    obtain ⟨hcolon, hbracket⟩ := ha c List.mem_cons_self
    rw [List.cons_append, splitColon, if_neg (by simp [hcolon]),
      show (decide (c = '[') || (false && decide (c ≠ ']'))) = false by simp [hbracket],
      ih fun c hc => ha c (List.mem_cons_of_mem _ hc)]
    rfl

/-- **A host is split from what follows it.** -/
theorem splitColon_of_parse (h : P.parse s = some host) (t : List Char) :
    splitColon false (s ++ t) = (s ++ (splitColon false t).1, (splitColon false t).2) := by
  by_cases hbracket : ':' ∈ s ∨ '[' ∈ s
  · obtain ⟨a, rfl, ha⟩ := P.bracketed h hbracket
    have hsplit := splitColon_inside ha t
    rw [List.cons_append, splitColon, if_neg (by simp)]
    simp only [decide_true, Bool.true_or, List.append_assoc, List.cons_append, List.nil_append,
      hsplit]
  · obtain ⟨hcolon, hopen⟩ := not_or.mp hbracket
    refine splitColon_outside (fun c hc => ⟨?_, ?_⟩) t
    · rintro rfl
      exact hcolon hc
    · rintro rfl
      exact hopen hc

theorem isDigit_plain {c : Char} (h : c.isDigit = true) :
    endsAuthority c = false ∧ isBreak c = false ∧ c ≠ '@' := by
  have hne : ∀ d : Char, d.isDigit = false → c ≠ d := by
    rintro d hd rfl
    exact absurd h (Bool.eq_false_iff.mp hd)
  refine ⟨?_, ?_, hne '@' rfl⟩
  · simp [endsAuthority, hne '/' rfl, hne '\\' rfl, hne '?' rfl, hne '#' rfl]
  · simp [isBreak, hne '\t' rfl, hne '\n' rfl, hne '\r' rfl]

theorem digits_of_readPort {digits : List Char} (h : readPort digits = some port) :
    ∀ c ∈ digits, c.isDigit = true := by
  rw [readPort] at h
  split at h
  · next hnil =>
    rw [hnil]
    exact fun c hc => absurd hc List.not_mem_nil
  · split at h
    · next hall => exact List.all_eq_true.mp (Bool.and_eq_true_iff.mp hall).1
    · cases h

/-- **What a host and a port are made of.** -/
theorem exists_of_hostPort (h : hostPort P s = some (host, port)) : ∃ name digits,
    P.parse name = some host ∧ readPort digits = some port ∧
      (s = name ∧ digits = [] ∨ s = name ++ ':' :: digits) := by
  have hs := splitColon_append false s
  rw [hostPort] at h
  rcases hname : P.parse (splitColon false s).1 with _ | host'
  · rw [hname] at h
    cases h
  · rcases hport : readPort ((splitColon false s).2.getD []) with _ | port'
    · rw [hname, hport] at h
      cases h
    · rw [hname, hport] at h
      obtain ⟨rfl, rfl⟩ := Prod.mk.inj (Option.some.inj h)
      refine ⟨_, _, hname, hport, ?_⟩
      rcases hrest : (splitColon false s).2 with _ | r
      · rw [hrest] at hs
        exact .inl ⟨by simpa using hs, rfl⟩
      · rw [hrest] at hs
        exact .inr hs

theorem plain_of_hostPort (h : hostPort P s = some (host, port)) :
    ∀ c ∈ s, endsAuthority c = false ∧ isBreak c = false ∧ c ≠ '@' := by
  obtain ⟨name, digits, hname, hport, hs⟩ := exists_of_hostPort h
  have hdigits := digits_of_readPort hport
  intro c hc
  rcases hs with ⟨rfl, -⟩ | rfl
  · exact P.plain hname c hc
  · rcases List.mem_append.mp hc with hc | hc
    · exact P.plain hname c hc
    · rcases List.mem_cons.mp hc with rfl | hc
      · decide
      · exact isDigit_plain (hdigits c hc)

theorem ne_nil_of_parse (h : P.parse s = some host) : s ≠ [] := by
  rintro rfl
  rw [P.parse_nil] at h
  cases h

theorem ne_nil_of_hostPort (h : hostPort P s = some (host, port)) : s ≠ [] := by
  obtain ⟨name, digits, hname, -, ⟨rfl, -⟩ | rfl⟩ := exists_of_hostPort h
  · exact ne_nil_of_parse hname
  · exact List.append_ne_nil_of_left_ne_nil (ne_nil_of_parse hname) _

theorem cleaned_append {c : Char} {a : List Char} (hc : isEdge c = false)
    (hbreak : ∀ d ∈ c :: a, isBreak d = false) (path : List Char) :
    ∃ path', cleaned (c :: a ++ '/' :: path) = c :: a ++ '/' :: path' := by
  have hfront : (c :: a ++ '/' :: path).dropWhile isEdge = c :: a ++ '/' :: path :=
    List.dropWhile_cons_of_neg (by simp [hc])
  obtain ⟨path', hback⟩ : ∃ path', ((c :: a ++ '/' :: path).reverse.dropWhile isEdge).reverse =
      c :: a ++ '/' :: path' := by
    rw [List.reverse_append, List.reverse_cons, List.append_assoc, List.dropWhile_append]
    split
    · exact ⟨[], by rw [List.singleton_append, List.dropWhile_cons_of_neg (by decide)]; simp⟩
    · exact ⟨(path.reverse.dropWhile isEdge).reverse, by simp⟩
  refine ⟨path'.filter fun c => !isBreak c, ?_⟩
  have hkept : (c :: a).filter (fun c => !isBreak c) = c :: a :=
    List.filter_eq_self.mpr fun d hd => by simp [hbreak d hd]
  rw [cleaned, hfront, hback, List.filter_append, hkept, List.filter_cons_of_pos (by decide)]

/-- **A host and a port are read in a URL as they are by themselves**, whatever path comes after
them. -/
theorem readUrl_of_hostPort (scheme : Scheme) (h : hostPort P s = some (host, port))
    (path : List Char) : readUrl P (scheme.text ++ "://".toList ++ s ++ '/' :: path) =
      some ⟨scheme, host, if port = some scheme.defaultPort then none else port⟩ := by
  have hplain := plain_of_hostPort h
  obtain ⟨path', hclean⟩ : ∃ path', cleaned (scheme.text ++ "://".toList ++ s ++ '/' :: path) =
      scheme.text ++ "://".toList ++ s ++ '/' :: path' := by
    have hbreak : ∀ d ∈ scheme.text ++ "://".toList ++ s, isBreak d = false := by
      intro d hd
      rcases List.mem_append.mp hd with hd | hd
      · have hall : ((scheme.text ++ "://".toList).all fun d => !isBreak d) = true := by
          cases scheme <;> decide
        exact (Bool.not_eq_true' _).mp (List.all_eq_true.mp hall d hd)
      · exact (hplain d hd).2.1
    cases scheme
    all_goals exact cleaned_append (by decide) hbreak path
  have hscheme : splitScheme (scheme.text ++ "://".toList ++ s ++ '/' :: path') =
      some (scheme, "//".toList ++ s ++ '/' :: path') := by
    cases scheme <;> rfl
  have hauthority : authority ("//".toList ++ s ++ '/' :: path') = s := by
    obtain ⟨c, t, rfl⟩ := List.exists_cons_of_ne_nil (ne_nil_of_hostPort h)
    have hslash : isSlash c = false := by
      have hc := (hplain c List.mem_cons_self).1
      simp only [endsAuthority, isSlash, Bool.or_eq_false_iff] at hc ⊢
      exact ⟨hc.1.1.1, hc.1.1.2⟩
    have hdrop : ("//".toList ++ (c :: t) ++ '/' :: path').dropWhile isSlash =
        c :: t ++ '/' :: path' := by
      rw [List.append_assoc, List.dropWhile_append_of_pos (by simp [isSlash])]
      exact List.dropWhile_cons_of_neg (by simp [hslash])
    rw [authority, hdrop, List.takeWhile_append_of_pos fun d hd => by simp [(hplain d hd).1]]
    simp [endsAuthority]
  have hat : afterAt s = s := by
    rw [afterAt, List.takeWhile_eq_self_iff.mpr fun c hc =>
      decide_eq_true (hplain c (List.mem_reverse.mp hc)).2.2, List.reverse_reverse]
  rw [readUrl, hclean, hscheme]
  simp only [Option.bind_eq_bind, Option.bind_some, hauthority, hat, h]
  rfl

theorem hostPort_append (hhost : P.parse host = some host) (hport : ∀ n ∈ port, n ≤ 65535) :
    hostPort P (host ++ port.elim [] fun n => ':' :: Decimal.text n) = some (host, port) := by
  rw [hostPort, splitColon_of_parse hhost]
  rcases port with _ | n
  · simp [splitColon, hhost, readPort]
  · have hdigits : (Decimal.text n).all Char.isDigit = true :=
      List.all_eq_true.mpr fun c hc => Decimal.isDigit_of_mem_text hc
    have hvalue : Nat.ofDigitChars 10 (Decimal.text n) 0 = n := Nat.ofDigitChars_ten_toDigits
    have hread : readPort (Decimal.text n) = some (some n) := by
      rw [readPort, if_neg (Decimal.text_ne_nil n), if_pos, hvalue]
      rw [hdigits, hvalue, decide_eq_true (hport n rfl)]
      rfl
    simp [splitColon, hhost, hread]

theorem le_of_readPort {digits : List Char} (h : readPort digits = some port) :
    ∀ n ∈ port, n ≤ 65535 := by
  rw [readPort] at h
  split at h
  · obtain rfl := Option.some.inj h
    exact fun n hn => absurd hn (by simp)
  · split at h
    · next hall =>
      obtain rfl := Option.some.inj h
      rintro n ⟨rfl⟩
      exact of_decide_eq_true (Bool.and_eq_true_iff.mp hall).2
    · cases h

/-- **What is read of a URL.** -/
theorem of_readUrl {u : HttpUrl} (h : readUrl P s = some u) :
    P.parse u.host = some u.host ∧ (∀ n ∈ u.port, n ≤ 65535) ∧
      u.port ≠ some u.scheme.defaultPort := by
  rw [readUrl] at h
  obtain ⟨⟨scheme, rest⟩, -, h⟩ := Option.bind_eq_some_iff.mp h
  obtain ⟨⟨host, port⟩, hread, h⟩ := Option.bind_eq_some_iff.mp h
  obtain rfl := Option.some.inj h
  obtain ⟨name, digits, hname, hport, -⟩ := exists_of_hostPort hread
  refine ⟨P.parse_host hname, fun n hn => ?_, fun heq => ?_⟩
  · simp only at hn
    split at hn
    · cases hn
    · exact le_of_readPort hport n hn
  · simp only at heq
    split at heq
    · cases heq
    · next hne => exact hne heq

theorem origin_eq (u : HttpUrl) : u.origin = u.scheme.text ++ "://".toList ++
    (u.host ++ u.port.elim [] fun n => ':' :: Decimal.text n) := by
  rw [HttpUrl.origin]
  cases u.port
  all_goals simp

/-- **The origin of a URL is read as that URL**, whatever path comes after it. -/
theorem readUrl_origin {u : HttpUrl} (h : readUrl P s = some u) (path : List Char) :
    readUrl P (u.origin ++ '/' :: path) = some u := by
  obtain ⟨hhost, hport, hdefault⟩ := of_readUrl h
  rw [origin_eq, readUrl_of_hostPort u.scheme (hostPort_append hhost hport) path, if_neg hdefault]

end reading

end EmeraldExchange.Url
