import EmeraldExchange.Auth.Session
import EmeraldExchange.Lib.JsonTree
import EmeraldExchange.Lib.Regex
import EmeraldExchange.Lib.Words

/-!
# The telemetry scrubber

`crates/emerald-contracts/src/telemetry.rs`: before a report leaves the house, the values of
sensitive keys are replaced, and in every other text the stream tokens, the encrypted tokens and
the Plex PIN ids, one after the other.

Each of the three passes leaves a text in which its own expression matches no more – or, for stream
tokens, only the marker it has put there – and the later passes undo nothing of that
(`cleanText_redactString`). The reason is the same each time:
what a pass puts into the text can neither be the middle of a match nor its beginning, and what
follows a match is a character that the expression stopped at.

The class of word characters of Unicode is third-party data, and a parameter; of it only the
characters of ASCII matter.
-/

namespace EmeraldExchange.Contracts.Telemetry

open Regex

/-! ### Sensitive keys -/

/-- `REDACTED` -/
def redacted : String := "REDACTED"

/-- `PII_KEYS` -/
def piiKeys : List String :=
  ["plexauthtoken", "verifiedplexserverid", "xtream_username", "xtream_password", "password",
    "secret", "api_key", "token", "session", "auth", "credential", "cookie", "key", "csrf", "pem",
    "key_id", "signature", "license", "jwt", "certificate", "hash", "salt", "oauth",
    "client_secret", "refresh_token", "access_token", "private_key", "passwd", "x-real-ip",
    "x-forwarded-for", "ip_address", "remote_addr"]

/-- A key contains an entry of the list, in either case. -/
def matchesPiiKey (key : String) : Bool :=
  piiKeys.any fun deny =>
    (Words.toLowercase key.toList).tails.any fun t => deny.toList.isPrefixOf t

/-! ### The three expressions -/

/-- `[^&\s"']` -/
def tokenChar (c : Char) : Bool := !(c = '&' || Auth.whiteSpace c || c = '"' || c = '\'')

/-- `[A-Za-z0-9_-]` -/
def base64Char (c : Char) : Bool := c.isAlphanum || c = '_' || c = '-'

/-- `[^"'\s;,]` -/
def jweChar (c : Char) : Bool :=
  !(c = '"' || c = '\'' || Auth.whiteSpace c || c = ';' || c = ',')

/-- The case folding of the letters of the PIN address: the long s folds to an s. -/
def fold (c : Char) : Char := if c = 'ſ' then 's' else c.toLower

/-- A stream token: `\bt=[^&\s"']+`. -/
def streamToken (word : Char → Bool) : Regex Char :=
  .cat (.boundary word) (.cat (literal ['t', '=']) (some1 tokenChar))

/-- An encrypted token: `eyJ[A-Za-z0-9_-]{8,}\.[^"'\s;,]*`. -/
def jwe : Regex Char :=
  .cat (literal ['e', 'y', 'J'])
    (.cat (atLeast base64Char 8) (.cat (literal ['.']) (.many jweChar)))

def pinPath : List Char := "/api/v2/pins/".toList

/-- The address of a PIN: the path, rather with the host before it. -/
def pinPrefix : Regex Char :=
  .cat (opt (.cat (wordBy fold "http".toList)
    (.cat (opt (wordBy fold ['s'])) (wordBy fold "://plex.tv".toList)))) (wordBy fold pinPath)

/-- The id of a PIN in its address: `(?i)((?:https?://plex\.tv)?/api/v2/pins/)[0-9]+`. -/
def plexPin : Regex Char := .cat (.group 1 pinPrefix) (some1 Char.isDigit)

/-! ### Scrubbing -/

/-- `t=REDACTED` -/
def tokenMarker : List Char := ['t', '='] ++ redacted.toList

/-- `REDACTED.` -/
def jweMarker : List Char := redacted.toList ++ ['.']

/-- The address of a PIN as it was written, and `REDACTED`. -/
def pinMarker (_ : List Char) (q : Pos Char) : List Char := (q.group 1).getD [] ++ redacted.toList

/-- **`redact_string`** -/
def redactString (word : Char → Bool) (s : List Char) : List Char :=
  let out := replaceAll (streamToken word) (fun _ _ => tokenMarker) s
  let out := replaceAll jwe (fun _ _ => jweMarker) out
  replaceAll plexPin pinMarker out

mutual

/-- **`scrub_value`** -/
def scrubValue (word : Char → Bool) : JsonTree → JsonTree
  | .obj ms => .obj (scrubMembers word ms)
  | .arr vs => .arr (scrubItems word vs)
  | .str s => .str (String.ofList (redactString word s.toList))
  | .null => .null
  | .bool b => .bool b
  | .int z => .int z
  | .float q => .float q

def scrubItems (word : Char → Bool) : List JsonTree → List JsonTree
  | [] => []
  | v :: vs => scrubValue word v :: scrubItems word vs

def scrubMembers (word : Char → Bool) : List (String × JsonTree) → List (String × JsonTree)
  | [] => []
  | (k, v) :: ms =>
    (k, if matchesPiiKey k then .str redacted else scrubValue word v) :: scrubMembers word ms

end

/-! ### What the expressions match -/

section shapes

variable {word : Char → Bool} {prev : Option Char} {s : List Char} {q : Pos Char}

def TokenAt (word : Char → Bool) (prev : Option Char) (s : List Char) : Prop :=
  prev.any word = false ∧ ∃ c z, s = 't' :: '=' :: c :: z ∧ tokenChar c = true

def JweAt (s : List Char) : Prop :=
  ∃ r z, s = 'e' :: 'y' :: 'J' :: (r ++ '.' :: z) ∧ 8 ≤ r.length ∧ ∀ c ∈ r, base64Char c = true

/-- The path of a PIN with an id stands here. -/
def PinAt (s : List Char) : Prop :=
  ∃ w d z, s = w ++ d :: z ∧ w.map fold = pinPath ∧ d.isDigit = true

/-- What a PIN address folds to before the id. -/
def pinAddresses : List (List Char) :=
  ["https://plex.tv/api/v2/pins/".toList, "http://plex.tv/api/v2/pins/".toList, pinPath]

theorem of_matchAt_streamToken (ht : word 't' = true)
    (h : matchAt (streamToken word) prev s = some q) :
    prev.any word = false ∧ ∃ c z, s = 't' :: '=' :: c :: z ∧ tokenChar c = true ∧
      q.rest = z.dropWhile tokenChar := by
  obtain ⟨p, hp, hq⟩ := exists_of_head?_cat h
  obtain ⟨rfl, hboundary⟩ := mem_run_boundary.mp hp
  obtain ⟨p', hp', hq⟩ := exists_of_head?_cat hq
  obtain ⟨hs, -, -⟩ := mem_run_literal.mp hp'
  obtain ⟨c, z, hrest, hc, hstop, -⟩ := head?_run_some1 hq
  obtain rfl : s = 't' :: '=' :: c :: z := by rw [← hrest]; exact hs
  refine ⟨?_, c, z, rfl, hc, hstop⟩
  simpa [ht] using hboundary

theorem matchAt_streamToken_ne_none (ht : word 't' = true) (h : TokenAt word prev s) :
    matchAt (streamToken word) prev s ≠ none := by
  obtain ⟨hprev, c, z, rfl, hc⟩ := h
  obtain ⟨q, hq⟩ := run_some1_ne_nil (q := ⟨some '=', c :: z, []⟩) rfl hc
  refine matchAt_ne_none (mem_run_cat.mpr ⟨⟨prev, 't' :: '=' :: c :: z, []⟩, ?_,
    mem_run_cat.mpr ⟨⟨some '=', c :: z, []⟩, ?_, (hq : q ∈ _)⟩⟩)
  · exact mem_run_boundary.mpr ⟨rfl, by simp [hprev, ht]⟩
  · exact mem_run_literal.mpr ⟨rfl, rfl, rfl⟩

theorem of_matchAt_jwe (h : matchAt jwe prev s = some q) :
    ∃ r z, s = 'e' :: 'y' :: 'J' :: (r ++ '.' :: z) ∧ 8 ≤ r.length ∧
      (∀ c ∈ r, base64Char c = true) ∧ q.rest = z.dropWhile jweChar := by
  obtain ⟨p, hp, hq⟩ := exists_of_head?_cat h
  obtain ⟨hs, -, -⟩ := mem_run_literal.mp hp
  obtain ⟨p', hp', hq⟩ := exists_of_head?_cat hq
  obtain ⟨r, hlen, hr, hrest, -⟩ := mem_run_atLeast.mp hp'
  obtain ⟨p'', hp'', hq⟩ := exists_of_head?_cat hq
  obtain ⟨hdot, -, -⟩ := mem_run_literal.mp hp''
  obtain ⟨prev', hhead⟩ := head?_runMany jweChar p''.groups p''.prev p''.rest
  obtain rfl := Option.some.inj (hhead.symm.trans hq)
  refine ⟨r, p''.rest, ?_, hlen, hr, rfl⟩
  have hs' : s = ['e', 'y', 'J'] ++ p.rest := hs
  rw [hs', hrest, hdot]
  rfl

theorem matchAt_jwe_ne_none (h : JweAt s) : matchAt jwe prev s ≠ none := by
  obtain ⟨r, z, rfl, hlen, hr⟩ := h
  obtain ⟨prev', hhead⟩ := head?_runMany jweChar [] (some '.') z
  refine matchAt_ne_none (mem_run_cat.mpr ⟨⟨some 'J', r ++ '.' :: z, []⟩, ?_,
    mem_run_cat.mpr ⟨⟨lastOr (some 'J') r, '.' :: z, []⟩, ?_,
      mem_run_cat.mpr ⟨⟨some '.', z, []⟩, ?_, List.mem_of_head? hhead⟩⟩⟩)
  · exact mem_run_literal.mpr ⟨rfl, rfl, rfl⟩
  · exact mem_run_atLeast.mpr ⟨r, hlen, hr, rfl, rfl, rfl⟩
  · exact mem_run_literal.mpr ⟨rfl, rfl, rfl⟩

theorem of_mem_run_pinPrefix {q' : Pos Char} (h : q' ∈ run pinPrefix q) :
    ∃ w, w.map fold ∈ pinAddresses ∧ q.rest = w ++ q'.rest ∧ q'.groups = q.groups := by
  obtain ⟨p, hp, hq'⟩ := mem_run_cat.mp h
  obtain ⟨path, hpath, hrest, -, hgroups⟩ := mem_run_wordBy.mp hq'
  rcases mem_run_opt.mp hp with hp | rfl
  · obtain ⟨p₁, hp₁, hp⟩ := mem_run_cat.mp hp
    obtain ⟨p₂, hp₂, hp⟩ := mem_run_cat.mp hp
    obtain ⟨a, ha, hrest₁, -, hgroups₁⟩ := mem_run_wordBy.mp hp₁
    obtain ⟨b, hb, hrest₃, -, hgroups₃⟩ := mem_run_wordBy.mp hp
    rcases mem_run_opt.mp hp₂ with hp₂ | rfl
    · obtain ⟨c, hc, hrest₂, -, hgroups₂⟩ := mem_run_wordBy.mp hp₂
      refine ⟨a ++ c ++ b ++ path, ?_, ?_, ?_⟩
      · simp only [List.map_append, ha, hb, hc, hpath]
        exact List.mem_cons_self
      · rw [hrest₁, hrest₂, hrest₃, hrest]
        simp only [List.append_assoc]
      · rw [hgroups, hgroups₃, hgroups₂, hgroups₁]
    · refine ⟨a ++ b ++ path, ?_, ?_, ?_⟩
      · simp only [List.map_append, ha, hb, hpath]
        exact List.mem_cons_of_mem _ List.mem_cons_self
      · rw [hrest₁, hrest₃, hrest]
        simp only [List.append_assoc]
      · rw [hgroups, hgroups₃, hgroups₁]
  · refine ⟨path, ?_, hrest, hgroups⟩
    rw [hpath]
    exact List.mem_cons_of_mem _ (List.mem_cons_of_mem _ List.mem_cons_self)

theorem of_matchAt_plexPin (h : matchAt plexPin prev s = some q) :
    ∃ w d z, s = w ++ d :: z ∧ w.map fold ∈ pinAddresses ∧ d.isDigit = true ∧
      q.rest = z.dropWhile Char.isDigit ∧ q.group 1 = some w := by
  obtain ⟨p, hp, hq⟩ := exists_of_head?_cat h
  obtain ⟨p', hp', rfl⟩ := mem_run_group.mp hp
  obtain ⟨w, hw, hrest, hgroups⟩ := of_mem_run_pinPrefix hp'
  obtain ⟨d, z, hdigit, hd, hq, hqgroups⟩ := head?_run_some1 hq
  have hs : s = w ++ p'.rest := hrest
  have hdigit' : p'.rest = d :: z := hdigit
  refine ⟨w, d, z, by rw [hs, hdigit'], hw, hd, hq, ?_⟩
  rw [Pos.group, hqgroups, hgroups]
  have hpassed : passed s p'.rest = w := by rw [hs, passed_append]
  simp [hpassed]

theorem matchAt_plexPin_ne_none (h : PinAt s) : matchAt plexPin prev s ≠ none := by
  obtain ⟨w, d, z, rfl, hw, hd⟩ := h
  obtain ⟨q, hq⟩ := run_some1_ne_nil (p := Char.isDigit)
    (q := ⟨lastOr prev w, d :: z, [(1, passed (w ++ d :: z) (d :: z))]⟩) rfl hd
  refine matchAt_ne_none (mem_run_cat.mpr ⟨_, ?_, hq⟩)
  refine mem_run_group.mpr ⟨⟨lastOr prev w, d :: z, []⟩, ?_, rfl⟩
  exact mem_run_cat.mpr ⟨⟨prev, w ++ d :: z, []⟩, mem_run_opt.mpr (.inr rfl),
    mem_run_wordBy.mpr ⟨w, hw, rfl, rfl, rfl⟩⟩

end shapes

/-! ### The first pass: stream tokens -/

section tokens

variable {word : Char → Bool} {prev : Option Char} {s out : List Char}

/-- The marker of a stream token stands here, and what follows it ends it. -/
def Marked (s : List Char) : Prop := ∃ z, s = tokenMarker ++ z ∧ z.head?.any tokenChar = false

/-- **Every stream token is a marker.** -/
def TokensMarked (word : Char → Bool) (prev : Option Char) (s : List Char) : Prop :=
  AllAt (fun prev s => TokenAt word prev s → Marked s) prev s

/-- A token begins with a `t`. -/
theorem not_tokenAt_of_ne {c : Char} (hc : c ≠ 't') : ¬ TokenAt word prev (c :: s) := by
  rintro ⟨-, d, z, heq, -⟩
  exact hc (List.cons.inj heq).1

/-- A stretch without a `t` has no tokens. -/
theorem tokensMarked_append {a : List Char} (ha : 't' ∉ a)
    (hs : TokensMarked word (lastOr prev a) s) : TokensMarked word prev (a ++ s) := by
  refine allAt_append_of (fun prev' a₁ c a₂ hac htoken => ?_) hs
  have hc : c ≠ 't' := by
    rintro rfl
    exact ha (hac ▸ List.mem_append_right _ List.mem_cons_self)
  exact absurd htoken (not_tokenAt_of_ne hc)

theorem head?_of_tokens (ht : word 't' = true)
    (h : Replaced (streamToken word) (fun _ _ => tokenMarker) prev s out) :
    out.head? = s.head? := by
  cases h with
  | nil => rfl
  | keep => rfl
  | hit _ hmatch _ _ =>
    obtain ⟨-, c, z, hs, -⟩ := of_matchAt_streamToken ht hmatch
    rw [hs]
    rfl

/-- **After the pass every stream token is a marker.** -/
theorem tokensMarked_of_tokens (ht : word 't' = true)
    (h : Replaced (streamToken word) (fun _ _ => tokenMarker) prev s out) {prev' : Option Char}
    (hprev : prev' = prev ∨ s.head?.any tokenChar = false) : TokensMarked word prev' out := by
  induction h generalizing prev' with
  | nil =>
    rintro ⟨-, c, z, heq, -⟩
    cases heq
  | @keep prev c s out hnone hrest ih =>
    refine ⟨?_, ih (.inl rfl)⟩
    rintro ⟨hword, d, z, heq, hd⟩
    obtain ⟨rfl, rfl⟩ := List.cons.inj heq
    rcases hprev with rfl | hstop
    · -- the text had a token here already, and it would have been replaced
      refine absurd hnone (matchAt_streamToken_ne_none ht ⟨hword, ?_⟩)
      have hequals := head?_of_tokens ht hrest
      cases s with
      | nil => cases hequals
      | cons e s =>
        obtain rfl : '=' = e := Option.some.inj hequals
        rcases hrest.cons_inv with ⟨-, out', hout, hrest'⟩ | ⟨m, rest, q, out', -, hmatch, -⟩
        · obtain ⟨-, rfl⟩ := List.cons.inj hout
          have hnext := head?_of_tokens ht hrest'
          cases s with
          | nil => cases hnext
          | cons e s =>
            obtain rfl : d = e := Option.some.inj hnext
            exact ⟨d, s, rfl, hd⟩
        · obtain ⟨-, c, z', hs, -⟩ := of_matchAt_streamToken ht hmatch
          exact absurd (List.cons.inj hs).1 (by decide)
    · have hnot : tokenChar 't' = false := hstop
      exact absurd hnot (by decide)
  | @hit prev m rest out q hne hmatch hq hrest ih =>
    obtain ⟨-, c, z, hs, -, hstop⟩ := of_matchAt_streamToken ht hmatch
    have hend : rest.head?.any tokenChar = false := by
      rw [← hq, hstop]
      exact head?_dropWhile_any tokenChar z
    refine ⟨fun _ => ⟨out, rfl, by rw [head?_of_tokens ht hrest, hend]⟩, ?_⟩
    exact tokensMarked_append (a := '=' :: redacted.toList) (by decide) (ih (.inr hend))

theorem eq_of_marked {q : Pos Char} (ht : word 't' = true)
    (h : matchAt (streamToken word) prev s = some q) (hmarked : Marked s) :
    s = tokenMarker ++ q.rest := by
  obtain ⟨-, c, z, hs, -, hstop⟩ := of_matchAt_streamToken ht h
  obtain ⟨y, hy, hend⟩ := hmarked
  have hz : z = "EDACTED".toList ++ y := by
    have htext := hs.symm.trans hy
    exact (List.cons.inj (List.cons.inj (List.cons.inj htext).2).2).2
  have hrest : q.rest = y := by
    rw [hstop, hz, List.dropWhile_append_of_pos (List.all_eq_true.mp (by decide)),
      dropWhile_of_head?_any hend]
  rw [hrest, hy]

theorem eq_of_tokens (ht : word 't' = true)
    (h : Replaced (streamToken word) (fun _ _ => tokenMarker) prev s out)
    (hmarked : TokensMarked word prev s) : out = s := by
  induction h with
  | nil => rfl
  | keep _ _ ih => rw [ih hmarked.2]
  | @hit prev m rest out q hne hmatch hq hrest ih =>
    obtain ⟨hword, c, z, hs, hc, -⟩ := of_matchAt_streamToken ht hmatch
    have heq := eq_of_marked ht hmatch (hmarked.head ⟨hword, c, z, hs, hc⟩)
    rw [hq] at heq
    rw [ih hmarked.drop, List.append_cancel_right heq]

end tokens

/-! ### The second pass: encrypted tokens -/

section jwes

variable {word : Char → Bool} {prev : Option Char} {s out : List Char}

/-- **No encrypted token stands anywhere.** -/
def JweFree (prev : Option Char) (s : List Char) : Prop := AllAt (fun _ s => ¬ JweAt s) prev s

/-- An encrypted token begins with an `e`. -/
theorem not_jweAt_of_ne {c : Char} (hc : c ≠ 'e') : ¬ JweAt (c :: s) := by
  rintro ⟨r, z, heq, -⟩
  exact hc (List.cons.inj heq).1

/-- A stretch without an `e` has no encrypted tokens. -/
theorem jweFree_append {a : List Char} (ha : 'e' ∉ a) (hs : JweFree (lastOr prev a) s) :
    JweFree prev (a ++ s) := by
  refine allAt_append_of (fun prev' a₁ c a₂ hac => ?_) hs
  refine not_jweAt_of_ne ?_
  rintro rfl
  exact ha (hac ▸ List.mem_append_right _ List.mem_cons_self)

/-- The pass leaves a first character that is not an `e` as it is, and puts no character but an
`R` in the place of one. -/
theorem cons_of_jwes {c : Char} (hc : c ≠ 'R')
    (h : Replaced jwe (fun _ _ => jweMarker) prev s (c :: out)) :
    ∃ s', s = c :: s' ∧ Replaced jwe (fun _ _ => jweMarker) (some c) s' out := by
  cases s with
  | nil => exact absurd h.nil_inv (List.cons_ne_nil _ _)
  | cons d s =>
    rcases h.cons_inv with ⟨-, out', hout, hrest⟩ | ⟨m, rest, q, out', -, -, -, hout, -⟩
    · obtain ⟨rfl, rfl⟩ := List.cons.inj hout
      exact ⟨s, rfl, hrest⟩
    · exact absurd (List.cons.inj hout).1 hc

/-- A text that begins with an `e` or with what a token stops at keeps on doing so. -/
theorem head?_any_of_jwes (h : Replaced jwe (fun _ _ => jweMarker) prev s out)
    (hs : s.head?.any tokenChar = false) : out.head?.any tokenChar = false := by
  cases h with
  | nil => exact hs
  | keep => exact hs
  | hit _ hmatch _ _ =>
    obtain ⟨r, z, heq, -⟩ := of_matchAt_jwe hmatch
    rw [heq] at hs
    have hnot : tokenChar 'e' = false := hs
    exact absurd hnot (by decide)

/-- A stretch without an `e` is left as it is. -/
theorem append_of_jwes {a : List Char} (ha : 'e' ∉ a)
    (h : Replaced jwe (fun _ _ => jweMarker) prev (a ++ s) out) :
    ∃ out', out = a ++ out' ∧ Replaced jwe (fun _ _ => jweMarker) (lastOr prev a) s out' := by
  induction a generalizing prev out with
  | nil => exact ⟨out, rfl, h⟩
  | cons c a ih =>
    have hc : c ≠ 'e' := by
      rintro rfl
      exact ha List.mem_cons_self
    rcases h.cons_inv with ⟨-, out', rfl, hrest⟩ | ⟨m, rest, q, out', -, hmatch, -⟩
    · obtain ⟨out'', rfl, hrest'⟩ := ih (fun hmem => ha (List.mem_cons_of_mem _ hmem)) hrest
      exact ⟨out'', rfl, by rwa [lastOr_cons]⟩
    · obtain ⟨r, z, heq, -⟩ := of_matchAt_jwe hmatch
      exact absurd (List.cons.inj heq).1 hc

/-- **The second pass leaves the stream tokens marked.** -/
theorem tokensMarked_of_jwes (h : Replaced jwe (fun _ _ => jweMarker) prev s out)
    (hmarked : TokensMarked word prev s) {prev' : Option Char}
    (hprev : prev' = prev ∨ s.head?.any jweChar = false) : TokensMarked word prev' out := by
  induction h generalizing prev' with
  | nil =>
    rintro ⟨-, c, z, heq, -⟩
    cases heq
  | @keep prev c s out hnone hrest ih =>
    refine ⟨?_, ih hmarked.2 (.inl rfl)⟩
    rintro ⟨hword, d, z, heq, hd⟩
    obtain ⟨rfl, rfl⟩ := List.cons.inj heq
    rcases hprev with rfl | hstop
    · obtain ⟨s, rfl, hrest'⟩ := cons_of_jwes (by decide) hrest
      -- the value of the token began in the text as it does now, or with an `e`
      have htoken : TokenAt word prev' ('t' :: '=' :: s) := by
        refine ⟨hword, ?_⟩
        cases s with
        | nil => exact absurd hrest'.nil_inv (List.cons_ne_nil _ _)
        | cons e s =>
          rcases hrest'.cons_inv with ⟨-, out', hout, -⟩ | ⟨m, rest, q, out', -, hmatch, -⟩
          · obtain ⟨rfl, -⟩ := List.cons.inj hout
            exact ⟨d, s, rfl, hd⟩
          · obtain ⟨r, z', hs, -⟩ := of_matchAt_jwe hmatch
            obtain ⟨rfl, -⟩ := List.cons.inj hs
            exact ⟨'e', s, rfl, by decide⟩
      obtain ⟨y, hy, hend⟩ := hmarked.head htoken
      obtain rfl : s = redacted.toList ++ y := (List.cons.inj (List.cons.inj hy).2).2
      obtain ⟨out', hout, hrest''⟩ := append_of_jwes (by decide) hrest'
      exact ⟨out', by rw [hout]; rfl, head?_any_of_jwes hrest'' hend⟩
    · have hnot : jweChar 't' = false := hstop
      exact absurd hnot (by decide)
  | @hit prev m rest out q hne hmatch hq hrest ih =>
    obtain ⟨r, z, -, -, -, hstop⟩ := of_matchAt_jwe hmatch
    have hend : rest.head?.any jweChar = false := by
      rw [← hq, hstop]
      exact head?_dropWhile_any jweChar z
    exact tokensMarked_append (by decide) (ih hmarked.drop (.inr hend))

theorem ne_dot_of_base64Char {c : Char} (hc : base64Char c = true) : c ≠ '.' := by
  rintro rfl
  exact absurd hc (by decide)

theorem eq_of_base64_append {r r' z z' : List Char} (hr : ∀ c ∈ r, base64Char c = true)
    (hr' : ∀ c ∈ r', base64Char c = true) (h : r ++ '.' :: z = r' ++ '.' :: z') : r = r' := by
  induction r generalizing r' with
  | nil =>
    cases r' with
    | nil => rfl
    | cons d r' =>
      exact absurd (List.cons.inj h).1.symm (ne_dot_of_base64Char (hr' d List.mem_cons_self))
  | cons c r ih =>
    cases r' with
    | nil => exact absurd (List.cons.inj h).1 (ne_dot_of_base64Char (hr c List.mem_cons_self))
    | cons d r' =>
      obtain ⟨rfl, h'⟩ := List.cons.inj h
      rw [ih (fun e he => hr e (List.mem_cons_of_mem _ he))
        (fun e he => hr' e (List.mem_cons_of_mem _ he)) h']

/-- **A stretch of base64 before a dot was at least as long before the pass.** -/
theorem base64_of_jwes (h : Replaced jwe (fun _ _ => jweMarker) prev s out) {r z : List Char}
    (hout : out = r ++ '.' :: z) (hr : ∀ c ∈ r, base64Char c = true) :
    ∃ r' z', s = r' ++ '.' :: z' ∧ r.length ≤ r'.length ∧ ∀ c ∈ r', base64Char c = true := by
  induction h generalizing r with
  | nil => exact absurd hout.symm (by simp)
  | @keep prev c s out hnone hrest ih =>
    cases r with
    | nil =>
      obtain ⟨rfl, -⟩ := List.cons.inj hout
      exact ⟨[], s, rfl, le_rfl, by simp⟩
    | cons d r =>
      obtain ⟨rfl, hout'⟩ := List.cons.inj hout
      obtain ⟨r', z', rfl, hlen, hr'⟩ := ih hout' fun e he => hr e (List.mem_cons_of_mem _ he)
      refine ⟨c :: r', z', rfl, Nat.succ_le_succ hlen, ?_⟩
      rintro e he
      rcases List.mem_cons.mp he with rfl | he
      · exact hr e List.mem_cons_self
      · exact hr' e he
  | @hit prev m rest out q hne hmatch hq hrest ih =>
    -- the marker has eight characters before its dot, and the token it stands for had more
    obtain ⟨r', z', hs, hlen, hr', -⟩ := of_matchAt_jwe hmatch
    have height : r = redacted.toList :=
      eq_of_base64_append hr (List.all_eq_true.mp (by decide)) hout.symm
    refine ⟨'e' :: 'y' :: 'J' :: r', z', hs, ?_, ?_⟩
    · rw [height]
      simp only [List.length_cons]
      have hmarker : redacted.toList.length = 8 := by decide
      omega
    · rintro e he
      rcases List.mem_cons.mp he with rfl | he
      · decide
      rcases List.mem_cons.mp he with rfl | he
      · decide
      rcases List.mem_cons.mp he with rfl | he
      · decide
      · exact hr' e he

/-- **After the pass there are no encrypted tokens.** -/
theorem jweFree_of_jwes (h : Replaced jwe (fun _ _ => jweMarker) prev s out)
    (prev' : Option Char) : JweFree prev' out := by
  induction h generalizing prev' with
  | nil =>
    rintro ⟨r, z, heq, -⟩
    cases heq
  | @keep prev c s out hnone hrest ih =>
    refine ⟨?_, ih (some c)⟩
    rintro ⟨r, z, heq, hlen, hr⟩
    obtain ⟨rfl, rfl⟩ := List.cons.inj heq
    obtain ⟨s₁, rfl, hrest₁⟩ := cons_of_jwes (by decide) hrest
    obtain ⟨s₂, rfl, hrest₂⟩ := cons_of_jwes (by decide) hrest₁
    obtain ⟨r', z', rfl, hle, hr'⟩ := base64_of_jwes hrest₂ rfl hr
    exact matchAt_jwe_ne_none ⟨r', z', rfl, hlen.trans hle, hr'⟩ hnone
  | hit _ _ _ _ ih => exact jweFree_append (by decide) (ih _)

theorem allAt_of_jweFree (h : JweFree prev s) :
    AllAt (fun prev s => matchAt jwe prev s = none) prev s := by
  refine AllAt.imp (fun prev s hs => ?_) h
  cases hmatch : matchAt jwe prev s with
  | none => rfl
  | some q =>
    obtain ⟨r, z, heq, hlen, hr, -⟩ := of_matchAt_jwe hmatch
    exact absurd ⟨r, z, heq, hlen, hr⟩ hs

end jwes

/-! ### The third pass: PIN ids -/

section addresses

variable {w u : List Char} {c d x y : Char}

theorem toLower_cases (x : Char) : x.toLower = x ∨ x.toLower.isLower = true := by
  delta Char.toLower
  split
  · next hupper =>
    refine .inr ?_
    obtain ⟨hlo, hhi⟩ := hupper
    simp only [ge_iff_le, UInt32.le_iff_toNat_le] at hlo hhi
    have hA : 'A'.val.toNat = 65 := rfl
    have hZ : 'Z'.val.toNat = 90 := rfl
    have hgap : ('a'.val - 'A'.val).toNat = 32 := rfl
    have hsum : (x.val + ('a'.val - 'A'.val)).toNat = x.val.toNat + 32 := by
      rw [UInt32.toNat_add, hgap]
      omega
    have ha : 'a'.val.toNat = 97 := rfl
    have hz : 'z'.val.toNat = 122 := rfl
    delta Char.isLower
    simp only [Bool.and_eq_true, decide_eq_true_eq, ge_iff_le,
      UInt32.le_iff_toNat_le, hsum]
    omega
  · exact .inl rfl

theorem eq_of_fold_eq (h : fold x = y) (hy : y.isLower = false) : x = y := by
  rw [fold] at h
  split at h
  · rw [← h] at hy
    exact absurd hy (by decide)
  · rcases toLower_cases x with hsame | hlower
    · exact hsame.symm.trans h
    · rw [h, hy] at hlower
      cases hlower

theorem fold_digit (hd : d.isDigit = true) : fold d = d := by
  have hne : d ≠ 'ſ' := by
    rintro rfl
    exact absurd hd (by decide)
  rw [fold, if_neg hne]
  delta Char.toLower
  rw [dif_neg]
  rintro ⟨hlo, -⟩
  simp only [Char.isDigit, Bool.and_eq_true, decide_eq_true_eq, ge_iff_le,
    UInt32.le_iff_toNat_le] at hd hlo
  have h9 : '9'.val.toNat = 57 := rfl
  have hA : 'A'.val.toNat = 65 := rfl
  omega

theorem not_mem_address (hw : w.map fold ∈ pinAddresses)
    (hx : (pinAddresses.all fun a => fold x ∉ a) = true) : x ∉ w := by
  intro hmem
  have hnot := List.all_eq_true.mp hx _ hw
  exact of_decide_eq_true hnot (List.mem_map_of_mem hmem)

theorem address_ne_nil (hw : w.map fold ∈ pinAddresses) : w ≠ [] := by
  rintro rfl
  exact absurd hw (by decide)

theorem pair_mem_zip_tail {α : Type} (a : List α) (x y : α) (b : List α) :
    (x, y) ∈ (a ++ x :: y :: b).zip (a ++ x :: y :: b).tail := by
  induction a with
  | nil => exact List.mem_cons_self
  | cons z a ih =>
    cases a with
    | nil => exact List.mem_cons_of_mem _ List.mem_cons_self
    | cons z' a => exact List.mem_cons_of_mem _ ih

/-- **No digit follows a slash in an address.** -/
theorem not_digit_after_slash (hw : w.map fold ∈ pinAddresses) {a b : List Char}
    (heq : w = a ++ '/' :: d :: b) : d.isDigit = false := by
  have hcheck : (pinAddresses.all fun a =>
      (a.zip a.tail).all fun p => !(p.1 = '/' && p.2.isDigit)) = true := by decide
  have hall := List.all_eq_true.mp hcheck _ hw
  rw [heq, List.map_append, List.map_cons, List.map_cons] at hall
  have hpair := List.all_eq_true.mp hall _ (pair_mem_zip_tail _ _ _ _)
  by_contra hdigit
  rw [Bool.not_eq_false] at hdigit
  have hslash : fold '/' = '/' := by decide
  rw [fold_digit hdigit, hslash, hdigit] at hpair
  cases hpair

/-- **The first character of an address that is not of base64 is not a dot.** -/
theorem address_split (hw : w.map fold ∈ pinAddresses) :
    ∃ a x b, w = a ++ x :: b ∧ '.' ∉ a ∧ base64Char x = false ∧ x ≠ '.' := by
  have hshape : ∃ a y b, w.map fold = a ++ y :: b ∧ '.' ∉ a ∧ (y = ':' ∨ y = '/') := by
    simp only [pinAddresses, List.mem_cons, List.not_mem_nil, or_false] at hw
    rcases hw with hw | hw | hw
    · exact ⟨"https".toList, ':', "//plex.tv/api/v2/pins/".toList, hw, by decide, .inl rfl⟩
    · exact ⟨"http".toList, ':', "//plex.tv/api/v2/pins/".toList, hw, by decide, .inl rfl⟩
    · exact ⟨[], '/', "api/v2/pins/".toList, hw, by decide, .inr rfl⟩
  obtain ⟨a, y, b, heq, hdot, hy⟩ := hshape
  obtain ⟨a', t, rfl, rfl, ht⟩ := List.map_eq_append_iff.mp heq
  obtain ⟨x, b', rfl, hx, rfl⟩ := List.map_eq_cons_iff.mp ht
  refine ⟨a', x, b', rfl, ?_, ?_⟩
  · exact fun hmem => hdot (List.mem_map.mpr ⟨'.', hmem, by decide⟩)
  · rcases hy with rfl | rfl
    · obtain rfl := eq_of_fold_eq hx (by decide)
      decide
    · obtain rfl := eq_of_fold_eq hx (by decide)
      decide

theorem address_head (hw : w.map fold ∈ pinAddresses) {b : List Char} (heq : w = d :: b) :
    d.isDigit = false := by
  have hcheck : (pinAddresses.all fun a => !a.head?.any Char.isDigit) = true := by decide
  have hhead := List.all_eq_true.mp hcheck _ hw
  by_contra hdigit
  rw [Bool.not_eq_false] at hdigit
  rw [heq, List.map_cons, fold_digit hdigit, List.head?_cons, Option.any_some, hdigit] at hhead
  cases hhead

theorem ends_with_slash (hu : u.map fold <:+ pinPath) (hne : u ≠ []) : ∃ v, u = v ++ ['/'] := by
  rcases List.eq_nil_or_concat u with rfl | ⟨v, x, rfl⟩
  · exact absurd rfl hne
  · obtain ⟨k, hk⟩ := hu
    have hlast := congrArg List.getLast? hk
    have hpath : pinPath.getLast? = some '/' := by decide
    rw [hpath, List.concat_eq_append, List.map_append, ← List.append_assoc] at hlast
    have hslash : fold x = '/' := by simpa using hlast
    exact ⟨v, by rw [eq_of_fold_eq hslash (by decide), List.concat_eq_append]⟩

/-- **A path with an id does not reach into a replaced address.** -/
theorem address_append (hw : w.map fold ∈ pinAddresses) (hu : u.map fold <:+ pinPath)
    (hne : u ≠ []) (hd : d.isDigit = true) {a v z out : List Char} (hsplit : w = a ++ v)
    (h : v ++ (redacted.toList ++ out) = u ++ d :: z) : False := by
  have hR : d ≠ 'R' := by
    rintro rfl
    exact absurd hd (by decide)
  rcases List.append_eq_append_iff.mp h with ⟨t, rfl, ht⟩ | ⟨t, rfl, ht⟩
  · -- the path goes on into the marker
    cases t with
    | nil => exact hR (List.cons.inj ht).1.symm
    | cons e t =>
      obtain ⟨rfl, -⟩ := List.cons.inj ht
      have hmem : fold 'R' ∈ pinPath := hu.subset
        (List.mem_map_of_mem (List.mem_append_right _ List.mem_cons_self))
      exact absurd hmem (by decide)
  · cases t with
    | nil => exact hR (List.cons.inj ht).1
    | cons e t =>
      -- the id is within the address, behind a slash
      obtain ⟨rfl, -⟩ := List.cons.inj ht
      obtain ⟨v', rfl⟩ := ends_with_slash hu hne
      have hdigit := not_digit_after_slash hw (a := a ++ v') (b := t) (d := d) (by
        rw [hsplit]
        simp)
      rw [hdigit] at hd
      cases hd

end addresses

section pins

variable {word : Char → Bool} {prev : Option Char} {s out : List Char}

/-- **No path of a PIN with an id stands anywhere.** -/
def PinFree (prev : Option Char) (s : List Char) : Prop := AllAt (fun _ s => ¬ PinAt s) prev s

theorem of_pinMarker {m rest : List Char} {q : Pos Char}
    (hmatch : matchAt plexPin prev (m ++ rest) = some q) (hq : q.rest = rest) :
    ∃ w d ds, w.map fold ∈ pinAddresses ∧ m = w ++ d :: ds ∧ pinMarker m q = w ++ redacted.toList ∧
      (d :: ds).all Char.isDigit = true := by
  obtain ⟨w, d, z, hs, hw, hd, hstop, hgroup⟩ := of_matchAt_plexPin hmatch
  have hz : z = z.takeWhile Char.isDigit ++ rest := by
    rw [← hq, hstop, List.takeWhile_append_dropWhile]
  refine ⟨w, d, z.takeWhile Char.isDigit, hw, ?_, by rw [pinMarker, hgroup, Option.getD_some], ?_⟩
  · rw [hz] at hs
    have hsame : m ++ rest = w ++ d :: z.takeWhile Char.isDigit ++ rest := by
      rw [hs, List.append_assoc, List.cons_append]
    exact List.append_cancel_right hsame
  · rw [List.all_cons, hd, List.all_takeWhile]
    rfl

/-- The marker begins with an `R`. -/
theorem head?_redacted (out : List Char) : (redacted.toList ++ out).head? = some 'R' := rfl

theorem cons_of_pins {c : Char}
    (hc : (pinAddresses.all fun a => a.head? ≠ some (fold c)) = true)
    (h : Replaced plexPin pinMarker prev (c :: s) out) :
    ∃ out', out = c :: out' ∧ Replaced plexPin pinMarker (some c) s out' := by
  rcases h.cons_inv with ⟨-, out', rfl, hrest⟩ | ⟨m, rest, q, out', heq, hmatch, hq, -, -⟩
  · exact ⟨out', rfl, hrest⟩
  · obtain ⟨w, d, ds, hw, rfl, -⟩ := of_pinMarker (heq ▸ hmatch) hq
    cases w with
    | nil => exact absurd rfl (address_ne_nil hw)
    | cons e w =>
      obtain ⟨rfl, -⟩ := List.cons.inj heq
      exact absurd rfl (of_decide_eq_true (List.all_eq_true.mp hc _ hw))

theorem head?_of_pins (h : Replaced plexPin pinMarker prev s out) : out.head? = s.head? := by
  cases h with
  | nil => rfl
  | keep => rfl
  | hit _ hmatch hq _ =>
    obtain ⟨w, d, ds, hw, rfl, hmarker, -⟩ := of_pinMarker hmatch hq
    rw [hmarker]
    cases w with
    | nil => exact absurd rfl (address_ne_nil hw)
    | cons e w => rfl

theorem kept_of_pins {c : Char} (hc : (pinAddresses.all fun p => p.head? ≠ some (fold c)) = true)
    (h : Replaced plexPin pinMarker prev s (c :: out)) :
    ∃ s', s = c :: s' ∧ Replaced plexPin pinMarker (some c) s' out := by
  obtain ⟨s', rfl⟩ : ∃ s', s = c :: s' := List.head?_eq_some_iff.mp (head?_of_pins h).symm
  obtain ⟨out', hout, hrest⟩ := cons_of_pins hc h
  obtain rfl : out = out' := (List.cons.inj hout).2
  exact ⟨s', rfl, hrest⟩

theorem append_of_pins {a : List Char}
    (ha : (a.all fun c => pinAddresses.all fun p => p.head? ≠ some (fold c)) = true)
    (h : Replaced plexPin pinMarker prev (a ++ s) out) :
    ∃ out' prev', out = a ++ out' ∧ Replaced plexPin pinMarker prev' s out' := by
  induction a generalizing prev out with
  | nil => exact ⟨out, prev, rfl, h⟩
  | cons c a ih =>
    rw [List.all_cons, Bool.and_eq_true] at ha
    obtain ⟨out', rfl, hrest⟩ := cons_of_pins ha.1 h
    obtain ⟨out'', prev', rfl, hrest'⟩ := ih ha.2 hrest
    exact ⟨out'', prev', rfl, hrest'⟩

theorem lastOr_digits {d : Char} {ds : List Char} (h : (d :: ds).all Char.isDigit = true) :
    ∃ e, lastOr (some d) ds = some e ∧ e.isDigit = true := by
  induction ds generalizing d with
  | nil =>
    rw [List.all_cons, Bool.and_eq_true] at h
    exact ⟨d, rfl, h.1⟩
  | cons e ds ih =>
    rw [List.all_cons, Bool.and_eq_true] at h
    rw [lastOr_cons]
    exact ih h.2

/-- **The third pass leaves the stream tokens marked.** The characters before a place may have
changed from a digit to a letter, which is no difference to a word. -/
theorem tokensMarked_of_pins (hdigits : ∀ c, c.isDigit = true → word c = true)
    (hD : word 'D' = true) (h : Replaced plexPin pinMarker prev s out)
    (hmarked : TokensMarked word prev s) {prev' : Option Char}
    (hprev : prev'.any word = prev.any word) : TokensMarked word prev' out := by
  induction h generalizing prev' with
  | nil =>
    rintro ⟨-, c, z, heq, -⟩
    cases heq
  | @keep prev c s out hnone hrest ih =>
    refine ⟨?_, ih hmarked.2 rfl⟩
    rintro ⟨hword, d, z, heq, hd⟩
    obtain ⟨rfl, rfl⟩ := List.cons.inj heq
    obtain ⟨s, rfl, hrest'⟩ := kept_of_pins (by decide) hrest
    obtain ⟨s, rfl⟩ : ∃ s', s = d :: s' := List.head?_eq_some_iff.mp (head?_of_pins hrest').symm
    obtain ⟨y, hy, hend⟩ := hmarked.head ⟨hprev ▸ hword, d, s, rfl, hd⟩
    have hvalue : d :: s = redacted.toList ++ y := (List.cons.inj (List.cons.inj hy).2).2
    rw [hvalue] at hrest'
    obtain ⟨out', prev'', hout, hrest''⟩ := append_of_pins (by decide) hrest'
    exact ⟨out', by rw [hout]; rfl, by rw [head?_of_pins hrest'', hend]⟩
  | @hit prev m rest out q hne hmatch hq hrest ih =>
    obtain ⟨w, d, ds, hw, rfl, hmarker, hds⟩ := of_pinMarker hmatch hq
    obtain ⟨e, he, hdigit⟩ := lastOr_digits hds
    rw [hmarker, List.append_assoc]
    refine allAt_append_of_second (x := '=') (fun prev c s hs htoken => ?_)
      (not_mem_address hw (by decide)) (by rw [head?_redacted]; decide)
      (tokensMarked_append (by decide) (ih hmarked.drop ?_))
    · obtain ⟨-, d, z, heq, -⟩ := htoken
      rw [(List.cons.inj heq).2] at hs
      exact absurd rfl hs
    · have hlast : lastOr prev (w ++ d :: ds) = some e := by
        rw [lastOr_append, lastOr_cons, he]
      rw [hlast]
      exact hD.trans (hdigits e hdigit).symm

theorem base64_of_pins (h : Replaced plexPin pinMarker prev s out) {r z : List Char}
    (hout : out = r ++ '.' :: z) (hr : ∀ c ∈ r, base64Char c = true) :
    ∃ z', s = r ++ '.' :: z' := by
  induction h generalizing r with
  | nil => exact absurd hout.symm (by simp)
  | @keep prev c s out hnone hrest ih =>
    cases r with
    | nil =>
      obtain ⟨rfl, -⟩ := List.cons.inj hout
      exact ⟨s, rfl⟩
    | cons d r =>
      obtain ⟨rfl, hout'⟩ := List.cons.inj hout
      obtain ⟨z', rfl⟩ := ih hout' fun e he => hr e (List.mem_cons_of_mem _ he)
      exact ⟨z', rfl⟩
  | @hit prev m rest out q hne hmatch hq hrest ih =>
    -- the address stops base64 at a character that is not a dot
    obtain ⟨w, d, ds, hw, rfl, hmarker, -⟩ := of_pinMarker hmatch hq
    obtain ⟨a, x, b, rfl, hdot, hx, hxdot⟩ := address_split hw
    rw [hmarker, List.append_assoc, List.append_assoc] at hout
    rcases List.append_eq_append_iff.mp hout with ⟨t, rfl, ht⟩ | ⟨t, rfl, ht⟩
    · cases t with
      | nil => exact absurd (List.cons.inj ht).1 hxdot
      | cons e t =>
        obtain ⟨rfl, -⟩ := List.cons.inj ht
        rw [hr x (List.mem_append_right _ List.mem_cons_self)] at hx
        cases hx
    · cases t with
      | nil => exact absurd (List.cons.inj ht).1.symm hxdot
      | cons e t =>
        obtain ⟨rfl, -⟩ := List.cons.inj ht
        exact absurd (List.mem_append_right _ List.mem_cons_self) hdot

/-- **The third pass makes no encrypted token.** -/
theorem jweFree_of_pins (h : Replaced plexPin pinMarker prev s out) (hfree : JweFree prev s)
    (prev' : Option Char) : JweFree prev' out := by
  induction h generalizing prev' with
  | nil =>
    rintro ⟨r, z, heq, -⟩
    cases heq
  | @keep prev c s out hnone hrest ih =>
    refine ⟨?_, ih hfree.2 (some c)⟩
    rintro ⟨r, z, heq, hlen, hr⟩
    obtain ⟨rfl, rfl⟩ := List.cons.inj heq
    obtain ⟨s₁, rfl, hrest₁⟩ := kept_of_pins (by decide) hrest
    obtain ⟨s₂, rfl, hrest₂⟩ := kept_of_pins (by decide) hrest₁
    obtain ⟨z', rfl⟩ := base64_of_pins hrest₂ rfl hr
    exact hfree.head ⟨r, z', rfl, hlen, hr⟩
  | @hit prev m rest out q hne hmatch hq hrest ih =>
    obtain ⟨w, d, ds, hw, rfl, hmarker, -⟩ := of_pinMarker hmatch hq
    rw [hmarker, List.append_assoc]
    refine allAt_append_of_second (x := 'y') (fun prev c s hs hjwe => ?_)
      (not_mem_address hw (by decide)) (by rw [head?_redacted]; decide)
      (jweFree_append (by decide) (ih hfree.drop _))
    obtain ⟨r, z, heq, -⟩ := hjwe
    rw [(List.cons.inj heq).2] at hs
    exact absurd rfl hs

theorem path_of_pins (h : Replaced plexPin pinMarker prev s out) {u z : List Char} {d : Char}
    (hout : out = u ++ d :: z) (hu : u.map fold <:+ pinPath) (hd : d.isDigit = true) :
    ∃ z', s = u ++ d :: z' := by
  induction h generalizing u with
  | nil => exact absurd hout.symm (by simp)
  | @keep prev c s out hnone hrest ih =>
    cases u with
    | nil =>
      obtain ⟨rfl, -⟩ := List.cons.inj hout
      exact ⟨s, rfl⟩
    | cons e u =>
      obtain ⟨rfl, hout'⟩ := List.cons.inj hout
      obtain ⟨z', rfl⟩ := ih hout' ((List.suffix_cons _ _).trans hu)
      exact ⟨z', rfl⟩
  | @hit prev m rest out q hne hmatch hq hrest ih =>
    obtain ⟨w, d', ds, hw, rfl, hmarker, -⟩ := of_pinMarker hmatch hq
    rw [hmarker, List.append_assoc] at hout
    cases u with
    | nil =>
      cases w with
      | nil => exact absurd rfl (address_ne_nil hw)
      | cons e w =>
        obtain ⟨rfl, -⟩ := List.cons.inj hout
        rw [address_head hw rfl] at hd
        cases hd
    | cons e u => exact (address_append hw hu (List.cons_ne_nil _ _) hd (a := []) rfl hout).elim

/-- **After the pass there are no ids.** -/
theorem pinFree_of_pins (h : Replaced plexPin pinMarker prev s out) (prev' : Option Char) :
    PinFree prev' out := by
  induction h generalizing prev' with
  | nil =>
    rintro ⟨w, d, z, heq, -⟩
    exact absurd heq.symm (by simp)
  | @keep prev c s out hnone hrest ih =>
    refine ⟨?_, ih (some c)⟩
    rintro ⟨u, d, z, heq, hu, hd⟩
    cases u with
    | nil => exact absurd hu (by decide)
    | cons e u =>
      obtain ⟨rfl, rfl⟩ := List.cons.inj heq
      have hsuffix : u.map fold <:+ pinPath := hu ▸ List.suffix_cons _ _
      obtain ⟨z', rfl⟩ := path_of_pins hrest rfl hsuffix hd
      exact matchAt_plexPin_ne_none ⟨c :: u, d, z', rfl, hu, hd⟩ hnone
  | @hit prev m rest out q hne hmatch hq hrest ih =>
    obtain ⟨w, d, ds, hw, rfl, hmarker, -⟩ := of_pinMarker hmatch hq
    rw [hmarker, List.append_assoc]
    refine allAt_append_of (fun prev'' a₁ c a₂ hac => ?_)
      (allAt_append_of (fun prev'' a₁ c a₂ hac => ?_) (ih _))
    · rintro ⟨u, d', z, heq, hu, hd'⟩
      have hne : u ≠ [] := by
        rintro rfl
        exact absurd hu (by decide)
      exact address_append hw (hu ▸ List.suffix_refl _) hne hd' hac heq
    · -- the marker has no slash
      rintro ⟨u, d', z, heq, hu, -⟩
      cases u with
      | nil => exact absurd hu (by decide)
      | cons e u =>
        obtain ⟨rfl, -⟩ := List.cons.inj heq
        have hslash : fold c = '/' := (List.cons.inj hu).1
        obtain rfl := eq_of_fold_eq hslash (by decide)
        have hmem : '/' ∈ redacted.toList := hac ▸ List.mem_append_right _ List.mem_cons_self
        exact absurd hmem (by decide)

theorem allAt_of_pinFree (h : PinFree prev s) :
    AllAt (fun prev s => matchAt plexPin prev s = none) prev s := by
  rw [allAt_iff]
  rintro a b rfl
  cases hmatch : matchAt plexPin (lastOr prev a) b with
  | none => rfl
  | some q =>
    obtain ⟨w, d, z, rfl, hw, hd, -⟩ := of_matchAt_plexPin hmatch
    -- every address ends with the path
    have hcheck : (pinAddresses.all fun p => pinPath.isSuffixOf p) = true := by decide
    obtain ⟨k, hk⟩ := List.isSuffixOf_iff_suffix.mp (List.all_eq_true.mp hcheck _ hw)
    obtain ⟨w₁, w₂, rfl, -, hw₂⟩ := List.map_eq_append_iff.mp hk.symm
    refine absurd ⟨w₂, d, z, rfl, hw₂, hd⟩ (allAt_iff.mp h (a ++ w₁) (w₂ ++ d :: z) ?_)
    simp only [List.append_assoc]

end pins

/-! ### A scrubbed text -/

section text

variable {word : Char → Bool}

/-- **A clean text**: a stream token in it is the marker, and it has neither an encrypted token nor
the id of a PIN. -/
structure CleanText (word : Char → Bool) (s : List Char) : Prop where
  token : ∀ a b, s = a ++ b → ∀ q, matchAt (streamToken word) a.getLast? b = some q →
    passed b q.rest = tokenMarker
  jwe : isMatch jwe s = false
  pin : isMatch plexPin s = false

theorem passed_of_marked {s : List Char} (ht : word 't' = true)
    (hmarked : TokensMarked word none s) : ∀ a b, s = a ++ b → ∀ q,
      matchAt (streamToken word) a.getLast? b = some q → passed b q.rest = tokenMarker := by
  rintro a b hab q hq
  have hplace := allAt_iff.mp hmarked a b hab
  rw [lastOr, Option.or_none] at hplace
  obtain ⟨hword, c, z, hs, hc, -⟩ := of_matchAt_streamToken ht hq
  have heq := eq_of_marked ht hq (hplace ⟨hword, c, z, hs, hc⟩)
  conv_lhs => rw [heq]
  exact passed_append tokenMarker q.rest

theorem cleanText_of {s : List Char} (ht : word 't' = true) (hmarked : TokensMarked word none s)
    (hjwe : JweFree none s) (hpin : PinFree none s) : CleanText word s where
  token := passed_of_marked ht hmarked
  jwe := isMatch_eq_false_iff.mpr (allAt_of_jweFree hjwe)
  pin := isMatch_eq_false_iff.mpr (allAt_of_pinFree hpin)

theorem streamToken_takes (ht : word 't' = true) (prev : Option Char) (s : List Char)
    (q : Pos Char) (h : matchAt (streamToken word) prev s = some q) : q.rest ≠ s := by
  obtain ⟨-, c, z, rfl, -, hstop⟩ := of_matchAt_streamToken ht h
  intro heq
  have hlen := (List.dropWhile_suffix (l := z) tokenChar).length_le
  rw [← hstop, heq] at hlen
  simp at hlen
  omega

theorem jwe_takes (prev : Option Char) (s : List Char) (q : Pos Char)
    (h : matchAt jwe prev s = some q) : q.rest ≠ s := by
  obtain ⟨r, z, rfl, -, -, hstop⟩ := of_matchAt_jwe h
  intro heq
  have hlen := (List.dropWhile_suffix (l := z) jweChar).length_le
  rw [← hstop, heq] at hlen
  simp at hlen
  omega

theorem plexPin_takes (prev : Option Char) (s : List Char) (q : Pos Char)
    (h : matchAt plexPin prev s = some q) : q.rest ≠ s := by
  obtain ⟨w, d, z, rfl, -, -, hstop, -⟩ := of_matchAt_plexPin h
  intro heq
  have hlen := (List.dropWhile_suffix (l := z) Char.isDigit).length_le
  rw [← hstop, heq] at hlen
  simp at hlen
  omega

/-- Of the class of words only the characters of ASCII are known. -/
def IsWordClass (word : Char → Bool) : Prop :=
  ∀ c : Char, c.toNat < 128 → word c = (c.isAlphanum || c = '_')

theorem IsWordClass.digit (hword : IsWordClass word) {c : Char} (hc : c.isDigit = true) :
    word c = true := by
  have hlt : c.toNat < 128 := by
    simp only [Char.isDigit, Bool.and_eq_true, decide_eq_true_eq, ge_iff_le,
      UInt32.le_iff_toNat_le] at hc
    have h9 : '9'.val.toNat = 57 := rfl
    have hval : c.toNat = c.val.toNat := rfl
    omega
  rw [hword c hlt, Char.isAlphanum, hc]
  simp

/-- **The three passes leave a clean text.** -/
theorem redactString_spec (hword : IsWordClass word) (s : List Char) :
    TokensMarked word none (redactString word s) ∧ JweFree none (redactString word s) ∧
      PinFree none (redactString word s) := by
  have ht : word 't' = true := hword 't' (by decide)
  have hD : word 'D' = true := hword 'D' (by decide)
  have htokens := replaced_replaceFrom (fun _ _ => tokenMarker) (streamToken_takes ht) none s
  have hmarked := tokensMarked_of_tokens ht htokens (.inl rfl)
  have hjwes := replaced_replaceFrom (fun _ _ => jweMarker) jwe_takes none
    (replaceAll (streamToken word) (fun _ _ => tokenMarker) s)
  have hpins := replaced_replaceFrom pinMarker plexPin_takes none
    (replaceAll jwe (fun _ _ => jweMarker)
      (replaceAll (streamToken word) (fun _ _ => tokenMarker) s))
  refine ⟨?_, ?_, ?_⟩
  · exact tokensMarked_of_pins (fun c hc => hword.digit hc) hD hpins
      (tokensMarked_of_jwes hjwes hmarked (.inl rfl)) rfl
  · exact jweFree_of_pins hpins (jweFree_of_jwes hjwes none) none
  · exact pinFree_of_pins hpins none

theorem cleanText_redactString (hword : IsWordClass word) (s : List Char) :
    CleanText word (redactString word s) := by
  obtain ⟨hmarked, hjwe, hpin⟩ := redactString_spec hword s
  exact cleanText_of (hword 't' (by decide)) hmarked hjwe hpin

/-- **A text that is scrubbed is not changed by scrubbing.** -/
theorem redactString_redactString (hword : IsWordClass word) (s : List Char) :
    redactString word (redactString word s) = redactString word s := by
  have ht : word 't' = true := hword 't' (by decide)
  obtain ⟨hmarked, hjwe, hpin⟩ := redactString_spec hword s
  generalize redactString word s = out at hmarked hjwe hpin ⊢
  have htokens : replaceAll (streamToken word) (fun _ _ => tokenMarker) out = out :=
    eq_of_tokens ht (replaced_replaceFrom _ (streamToken_takes ht) none out) hmarked
  have hjwes : replaceAll Telemetry.jwe (fun _ _ => jweMarker) out = out :=
    (replaced_replaceFrom _ jwe_takes none out).eq_of_allAt (allAt_of_jweFree hjwe)
  have hpins : replaceAll plexPin pinMarker out = out :=
    (replaced_replaceFrom _ plexPin_takes none out).eq_of_allAt (allAt_of_pinFree hpin)
  rw [redactString, htokens, hjwes, hpins]

theorem cleanText_redacted (hword : IsWordClass word) : CleanText word redacted.toList := by
  refine ⟨passed_of_marked (hword 't' (by decide)) ?_, by decide, by decide⟩
  rw [← List.append_nil redacted.toList]
  refine tokensMarked_append (by decide) ?_
  rintro ⟨-, c, z, heq, -⟩
  cases heq

end text

/-! ### A scrubbed value -/

section value

variable {word : Char → Bool}

/-- **A scrubbed value**: under a sensitive key there is only the marker, and every other text, at
any depth, is clean. -/
inductive Scrubbed (word : Char → Bool) : JsonTree → Prop
  | null : Scrubbed word .null
  | bool (b : Bool) : Scrubbed word (.bool b)
  | int (z : ℤ) : Scrubbed word (.int z)
  | float (q : ℚ) : Scrubbed word (.float q)
  | str {s : String} (h : CleanText word s.toList) : Scrubbed word (.str s)
  | arr {vs : List JsonTree} (h : ∀ v ∈ vs, Scrubbed word v) : Scrubbed word (.arr vs)
  | obj {ms : List (String × JsonTree)}
      (hkeys : ∀ m ∈ ms, matchesPiiKey m.1 = true → m.2 = .str redacted)
      (hvalues : ∀ m ∈ ms, Scrubbed word m.2) : Scrubbed word (.obj ms)

mutual

theorem scrubValue_scrubValue (hword : IsWordClass word) : ∀ v : JsonTree,
    scrubValue word (scrubValue word v) = scrubValue word v
  | .obj ms => by rw [scrubValue, scrubValue, scrubMembers_scrubMembers hword ms]
  | .arr vs => by rw [scrubValue, scrubValue, scrubItems_scrubItems hword vs]
  | .str s => by
    rw [scrubValue, scrubValue, String.toList_ofList, redactString_redactString hword]
  | .null => rfl
  | .bool b => rfl
  | .int z => rfl
  | .float q => rfl

theorem scrubItems_scrubItems (hword : IsWordClass word) : ∀ vs : List JsonTree,
    scrubItems word (scrubItems word vs) = scrubItems word vs
  | [] => rfl
  | v :: vs => by
    rw [scrubItems, scrubItems, scrubValue_scrubValue hword v, scrubItems_scrubItems hword vs]

theorem scrubMembers_scrubMembers (hword : IsWordClass word) : ∀ ms : List (String × JsonTree),
    scrubMembers word (scrubMembers word ms) = scrubMembers word ms
  | [] => rfl
  | (k, v) :: ms => by
    rw [scrubMembers, scrubMembers, scrubMembers_scrubMembers hword ms]
    by_cases hk : matchesPiiKey k = true
    · rw [if_pos hk, if_pos hk]
    · rw [if_neg hk, if_neg hk, scrubValue_scrubValue hword v]

end

mutual

theorem scrubbed_scrubValue (hword : IsWordClass word) : ∀ v : JsonTree,
    Scrubbed word (scrubValue word v)
  | .obj ms => .obj (fun m hm => (scrubbed_scrubMembers hword ms m hm).1)
      fun m hm => (scrubbed_scrubMembers hword ms m hm).2
  | .arr vs => .arr (scrubbed_scrubItems hword vs)
  | .str s => .str (by rw [String.toList_ofList]; exact cleanText_redactString hword s.toList)
  | .null => .null
  | .bool b => .bool b
  | .int z => .int z
  | .float q => .float q

theorem scrubbed_scrubItems (hword : IsWordClass word) : ∀ vs : List JsonTree,
    ∀ v ∈ scrubItems word vs, Scrubbed word v
  | [], _, h => by cases h
  | v :: vs, w, h => by
    rw [scrubItems] at h
    rcases List.mem_cons.mp h with rfl | h
    · exact scrubbed_scrubValue hword v
    · exact scrubbed_scrubItems hword vs w h

theorem scrubbed_scrubMembers (hword : IsWordClass word) : ∀ ms : List (String × JsonTree),
    ∀ m ∈ scrubMembers word ms,
      (matchesPiiKey m.1 = true → m.2 = .str redacted) ∧ Scrubbed word m.2
  | [], _, h => by cases h
  | (k, v) :: ms, m, h => by
    rw [scrubMembers] at h
    rcases List.mem_cons.mp h with rfl | h
    · by_cases hk : matchesPiiKey k = true
      · simp only [if_pos hk]
        exact ⟨fun _ => trivial, .str (cleanText_redacted hword)⟩
      · simp only [if_neg hk]
        exact ⟨fun hkey => absurd hkey hk, scrubbed_scrubValue hword v⟩
    · exact scrubbed_scrubMembers hword ms m h

end

/-- **The scrubber is complete and idempotent.** For every JSON value: scrubbing it twice is
scrubbing it once; and in what it leaves, only the marker stands under a sensitive key, and in
every text, at any depth, there is no encrypted token, no id of a PIN, and no stream token but the
marker `t=REDACTED`. -/
theorem scrub_complete (hword : IsWordClass word) (v : JsonTree) :
    scrubValue word (scrubValue word v) = scrubValue word v ∧ Scrubbed word (scrubValue word v) :=
  ⟨scrubValue_scrubValue hword v, scrubbed_scrubValue hword v⟩

/-- The class of words of ASCII, and a text that is one stream token. -/
theorem scrub_complete_ascii :
    Scrubbed (fun c => c.isAlphanum || c = '_')
      (scrubValue (fun c => c.isAlphanum || c = '_') (.str "t=x")) :=
  (scrub_complete (fun _ _ => rfl) (.str "t=x")).2

/-- **The marker of a stream token is itself a match of its expression.** -/
theorem marker_isMatch :
    ∃ s, scrubValue (fun c => c.isAlphanum || c = '_') (.str "t=x") = .str s ∧
      isMatch (streamToken fun c => c.isAlphanum || c = '_') s.toList = true := by
  refine ⟨_, rfl, ?_⟩
  rw [String.toList_ofList]
  decide +kernel

end value

end EmeraldExchange.Contracts.Telemetry
