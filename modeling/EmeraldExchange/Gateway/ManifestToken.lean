import EmeraldExchange.Auth.Session
import EmeraldExchange.Lib.Regex
import EmeraldExchange.Lib.Words
import EmeraldExchange.Gateway.JsNumber

/-!
# The token in a manifest

A player resolves the URIs of a manifest against the URL it fetched the manifest from and drops
the query of that, so the token in the query has to be put on every URI of the manifest: on the
lines that are URIs, and on the quoted values of `URI=` in the lines that are tags.

The values are found with a pattern that takes no quote of either kind between the quotes. What is
asked for is written down without a pattern: a line is read piece by piece, and a value lasts up to
the next quote of its own kind (`pieces`). The first place where the
pattern's text differs from the line's own is a closing quote of a value without quotes
(`quote_of_change`), which is how the two come to be compared.
-/

namespace EmeraldExchange.ManifestToken

open Auth Regex

/-! ### What the code does -/

def isQuote (c : Char) : Bool := c = '"' || c = '\''

def uriText : List Char := "URI=".toList

/-- A value in quotes of a kind, which has none of either kind itself. -/
def quoted (q : Char) (n : ℕ) : Regex Char :=
  .cat (.one fun c => c = q) (.cat (.group n (some1 fun c => !isQuote c)) (.one fun c => c = q))

/-- `URI=(?:"([^"']+)"|'([^"']+)')` -/
def uriAttr : Regex Char := .cat (literal uriText) (.alt (quoted '"' 1) (quoted '\'' 2))

/-- An absolute `http` or `https` URI, in letters of either case. -/
def absolute (uri : List Char) : Bool :=
  (uri.take 7).map Char.toLower = "http://".toList ||
    (uri.take 8).map Char.toLower = "https://".toList

/-- `t=<token>` -/
def param (token : List Char) : List Char := "t=".toList ++ token

/-- What separates a parameter from what is there. -/
def separator (uri : List Char) : Char := if '?' ∈ uri then '&' else '?'

/-- The parameter at the end of a URI that is not absolute. -/
def tokenize (token uri : List Char) : List Char :=
  if absolute uri then uri else uri ++ separator uri :: param token

def replaceUri (token m : List Char) (p : Pos Char) : List Char :=
  match p.group 1, p.group 2 with
  | some u, _ => uriText ++ '"' :: (tokenize token u ++ ['"'])
  | none, some u => uriText ++ '\'' :: (tokenize token u ++ ['\''])
  | none, none => m

def tokenLine (token line : List Char) : List Char :=
  let trimmed := trimMatches jsSpace line
  if trimmed.head? = some '#' && isMatch uriAttr trimmed then
    replaceAll uriAttr (replaceUri token) line
  else if trimmed.isEmpty || trimmed.head? = some '#' then line
  else tokenize token trimmed

/-- **`append_token_to_manifest`** -/
def appendTokenToManifest (manifest token : List Char) : List Char :=
  Words.join '\n' ((manifest.splitOn '\n').map (tokenLine token))

/-! ### What is asked for -/

/-- **A URI with the token as its last query parameter**: before the fragment, if it has one. -/
def withToken (token uri : List Char) : List Char :=
  if absolute uri then uri
  else
    let base := uri.takeWhile (· ≠ '#')
    base ++ separator base :: (param token ++ uri.dropWhile (· ≠ '#'))

/-- A piece of a tag: a character, or a quoted value of `URI=` with its quote. -/
inductive Piece
  | char (c : Char)
  | attr (q : Char) (value : List Char)
  deriving DecidableEq

/-- The quoted value of `URI=` that a text begins with, up to the next quote of its kind. -/
def attrAt (s : List Char) : Option (Char × List Char) :=
  if uriText.isPrefixOf s then
    match s.drop uriText.length with
    | [] => none
    | q :: s' => if isQuote q && q ∈ s' then some (q, s'.takeWhile (· ≠ q)) else none
  else none

/-- The pieces of a text, from a place on where some characters are still to be passed over. -/
def piecesFrom : ℕ → List Char → List Piece
  | _, [] => []
  | skip + 1, _ :: s => piecesFrom skip s
  | 0, c :: s =>
    match attrAt (c :: s) with
    | some (q, v) => .attr q v :: piecesFrom (v.length + 5) s
    | none => .char c :: piecesFrom 0 s

/-- **The pieces of a tag.** -/
def pieces (line : List Char) : List Piece := piecesFrom 0 line

def Piece.text (token : List Char) : Piece → List Char
  | .char c => [c]
  | .attr q v => uriText ++ q :: (withToken token v ++ [q])

/-- A line with the token on its URIs: a blank one as it is, a tag with the token on its values, and
any other is a URI. -/
def signedLine (token line : List Char) : List Char :=
  let trimmed := trimMatches jsSpace line
  if trimmed = [] then line
  else if trimmed.head? = some '#' then (pieces line).flatMap (Piece.text token)
  else withToken token trimmed

/-- **Every URI has the token and nothing else changes**, line by line. -/
def Rewritten (manifest token : List Char) : Prop :=
  (appendTokenToManifest manifest token).splitOn '\n' =
    (manifest.splitOn '\n').map (signedLine token)

def Plain (v : List Char) : Prop := v ≠ [] ∧ ∀ c ∈ v, isQuote c = false

/-- A URI whose last parameter is at its end, and a token that stays on its line. -/
def Extends (token uri : List Char) : Prop :=
  absolute uri = true ∨ '#' ∉ uri ∧ '\n' ∉ token

def Regular (token line : List Char) : Prop :=
  trimMatches jsSpace line ≠ [] →
    if (trimMatches jsSpace line).head? = some '#' then
      ∀ q v, .attr q v ∈ pieces line → Plain v ∧ Extends token v
    else Extends token (trimMatches jsSpace line)

/-- A tag whose absolute values have no quotes. -/
def AbsolutePlain (line : List Char) : Prop :=
  (trimMatches jsSpace line).head? = some '#' →
    ∀ q v, .attr q v ∈ pieces line → absolute v = true → ∀ c ∈ v, isQuote c = false

example : String.ofList (appendTokenToManifest
    "#EXTM3U\n#EXT-X-MAP:URI=\"init.mp4\"\n\nseg.ts?x=1\r\nHTTP://cdn/a.ts".toList "T".toList) =
    "#EXTM3U\n#EXT-X-MAP:URI=\"init.mp4?t=T\"\n\nseg.ts?x=1&t=T\nHTTP://cdn/a.ts" := by
  decide +kernel

/-! ### The pattern and the pieces at a place -/

section places

variable {token s out : List Char} {prev : Option Char} {p : Pos Char} {q : Char} {v : List Char}

theorem upto_inj {q : Char} {v v' s s' : List Char} (hv : q ∉ v) (hv' : q ∉ v')
    (h : v ++ q :: s = v' ++ q :: s') : v = v' ∧ s = s' := by
  induction v generalizing v' with
  | nil =>
    rcases v' with _ | ⟨c, v'⟩
    · exact ⟨rfl, (List.cons.inj h).2⟩
    · exact absurd ((List.cons.inj h).1 ▸ List.mem_cons_self) hv'
  | cons d v ih =>
    rcases v' with _ | ⟨c, v'⟩
    · exact absurd ((List.cons.inj h).1 ▸ List.mem_cons_self) hv
    · obtain ⟨rfl, htail⟩ := List.cons.inj h
      obtain ⟨rfl, rfl⟩ := ih (fun hq => hv (List.mem_cons_of_mem _ hq))
        (fun hq => hv' (List.mem_cons_of_mem _ hq)) htail
      exact ⟨rfl, rfl⟩

theorem takeWhile_upto {q : Char} {v s : List Char} (hv : q ∉ v) :
    (v ++ q :: s).takeWhile (· ≠ q) = v := by
  have hkept : ∀ c ∈ v, decide (c ≠ q) = true := fun c hc => decide_eq_true fun h => hv (h ▸ hc)
  rw [List.takeWhile_append_of_pos hkept, List.takeWhile_cons_of_neg (by simp), List.append_nil]

theorem Plain.notMem {q : Char} (h : Plain v) (hq : isQuote q = true) : q ∉ v := by
  intro hmem
  rw [h.2 q hmem] at hq
  exact Bool.false_ne_true hq

theorem isQuote_iff : isQuote q = true ↔ q = '"' ∨ q = '\'' := by
  rw [isQuote, Bool.or_eq_true, decide_eq_true_eq, decide_eq_true_eq]

theorem notMem_uriText_of_isQuote (hq : isQuote q = true) : q ∉ uriText := by
  rcases isQuote_iff.mp hq with rfl | rfl
  all_goals decide

theorem mem_run_quoted {p p' : Pos Char} {n : ℕ} (h : p' ∈ run (quoted q n) p) :
    ∃ w, Plain w ∧ p.rest = q :: (w ++ q :: p'.rest) ∧ p'.prev = some q ∧
      p'.groups = p.groups ++ [(n, w)] := by
  obtain ⟨p₁, hopen, h⟩ := mem_run_cat.mp h
  obtain ⟨p₂, hvalue, hclose⟩ := mem_run_cat.mp h
  obtain ⟨c, s, hrest, hc, rfl⟩ := mem_run_one.mp hopen
  obtain ⟨p₃, hways, rfl⟩ := mem_run_group.mp hvalue
  obtain ⟨w, hlen, hw, hs, -, hgroups⟩ := (mem_run_atLeast (n := 1)).mp hways
  obtain ⟨d, s', hrest', hd, rfl⟩ := mem_run_one.mp hclose
  obtain rfl : c = q := of_decide_eq_true hc
  obtain rfl : d = c := of_decide_eq_true hd
  replace hs : s = w ++ d :: s' := hs.trans (congrArg _ hrest')
  refine ⟨w, ⟨List.ne_nil_of_length_pos hlen, fun e he => ?_⟩, by rw [hrest, hs], rfl, ?_⟩
  · exact (Bool.not_eq_true' _).mp (hw e he)
  · show p₃.groups ++ [(n, passed s p₃.rest)] = _
    rw [hgroups, hs, show p₃.rest = d :: s' from hrest', passed_append]

theorem exists_mem_run_quoted {n : ℕ} (hw : Plain v) (hrest : p.rest = q :: (v ++ q :: s)) :
    ∃ p', p' ∈ run (quoted q n) p := by
  have hopen : ⟨some q, v ++ q :: s, p.groups⟩ ∈ run (.one fun c => c = q) p :=
    mem_run_one.mpr ⟨q, _, hrest, decide_eq_true rfl, rfl⟩
  have hvalue : ⟨lastOr (some q) v, q :: s, p.groups⟩ ∈ run (some1 fun c => !isQuote c)
      ⟨some q, v ++ q :: s, p.groups⟩ := by
    refine (mem_run_atLeast (n := 1)).mpr ⟨v, List.length_pos_of_ne_nil hw.1, fun c hc => ?_, rfl,
      rfl, rfl⟩
    rw [hw.2 c hc, Bool.not_false]
  exact ⟨_, mem_run_cat.mpr ⟨_, hopen, mem_run_cat.mpr ⟨_, mem_run_group.mpr ⟨_, hvalue, rfl⟩,
    mem_run_one.mpr ⟨q, s, rfl, decide_eq_true rfl, rfl⟩⟩⟩⟩

/-- A pattern all of whose ways are through a value in quotes, and which has a way through each,
matches there. -/
theorem matchAt_iff_of_ways {r : Regex Char}
    (honly : ∀ {p : Pos Char}, p ∈ run r ⟨prev, s, []⟩ → ∃ q w rest,
      s = uriText ++ q :: (w ++ q :: rest) ∧ isQuote q = true ∧ Plain w ∧
        p = ⟨some q, rest, [(if q = '"' then 1 else 2, w)]⟩)
    (hway : ∀ {q : Char} {w rest : List Char}, isQuote q = true → Plain w →
      s = uriText ++ q :: (w ++ q :: rest) → ∃ p, p ∈ run r ⟨prev, s, []⟩) :
    matchAt r prev s = some p ↔ ∃ q w rest,
      s = uriText ++ q :: (w ++ q :: rest) ∧ isQuote q = true ∧ Plain w ∧
        p = ⟨some q, rest, [(if q = '"' then 1 else 2, w)]⟩ := by
  constructor
  · exact fun h => honly (List.mem_of_head? h)
  · rintro ⟨q, w, rest, hs, hq, hw, rfl⟩
    obtain ⟨p', hp'⟩ := hway hq hw hs
    obtain ⟨p, hp⟩ := Option.ne_none_iff_exists'.mp (matchAt_ne_none hp')
    obtain ⟨q', w', rest', hs', hq', hw', rfl⟩ := honly (List.mem_of_head? hp)
    obtain ⟨rfl, htail⟩ := List.cons.inj (List.append_cancel_left (hs.symm.trans hs'))
    obtain ⟨rfl, rfl⟩ := upto_inj (hw.notMem hq) (hw'.notMem hq) htail
    exact hp

/-- **A match of the pattern**: `URI=` and a value in quotes that has none. -/
theorem matchAt_uriAttr_iff : matchAt uriAttr prev s = some p ↔ ∃ q w rest,
    s = uriText ++ q :: (w ++ q :: rest) ∧ isQuote q = true ∧ Plain w ∧
      p = ⟨some q, rest, [(if q = '"' then 1 else 2, w)]⟩ := by
  refine matchAt_iff_of_ways ?_ ?_
  · rintro ⟨prev', rest, groups⟩ h
    obtain ⟨p₁, hword, h⟩ := mem_run_cat.mp h
    obtain ⟨hs, -, hgroups⟩ := mem_run_literal.mp hword
    rcases List.mem_append.mp h with h | h
    · obtain ⟨w, hw, hrest, rfl, rfl⟩ := mem_run_quoted h
      exact ⟨'"', w, rest, hs.trans (congrArg _ hrest), rfl, hw, by rw [hgroups]; rfl⟩
    · obtain ⟨w, hw, hrest, rfl, rfl⟩ := mem_run_quoted h
      exact ⟨'\'', w, rest, hs.trans (congrArg _ hrest), rfl, hw, by rw [hgroups]; rfl⟩
  · rintro q w rest hq hw rfl
    have hword : ⟨lastOr prev uriText, q :: (w ++ q :: rest), []⟩ ∈
        run (literal uriText) ⟨prev, uriText ++ q :: (w ++ q :: rest), []⟩ :=
      mem_run_literal.mpr ⟨rfl, rfl, rfl⟩
    rcases isQuote_iff.mp hq with rfl | rfl
    · obtain ⟨p', hp'⟩ := exists_mem_run_quoted (n := 1)
        (p := ⟨lastOr prev uriText, '"' :: (w ++ '"' :: rest), []⟩) hw rfl
      exact ⟨p', mem_run_cat.mpr ⟨_, hword, List.mem_append_left _ hp'⟩⟩
    · obtain ⟨p', hp'⟩ := exists_mem_run_quoted (n := 2)
        (p := ⟨lastOr prev uriText, '\'' :: (w ++ '\'' :: rest), []⟩) hw rfl
      exact ⟨p', mem_run_cat.mpr ⟨_, hword, List.mem_append_right _ hp'⟩⟩

/-- **A value in a tag**: `URI=` and a text in quotes of a kind, which has none of that kind. -/
theorem attrAt_eq_some_iff : attrAt s = some (q, v) ↔ ∃ rest,
    s = uriText ++ q :: (v ++ q :: rest) ∧ isQuote q = true ∧ q ∉ v := by
  constructor
  · intro h
    rw [attrAt] at h
    split at h
    · next hword =>
      obtain ⟨t, rfl⟩ := List.isPrefixOf_iff_prefix.mp hword
      rw [List.drop_left] at h
      rcases t with _ | ⟨c, t⟩
      · cases h
      · dsimp only at h
        split at h
        · next hc =>
          rw [Bool.and_eq_true, decide_eq_true_eq] at hc
          obtain ⟨rfl, rfl⟩ := Prod.mk.inj (Option.some.inj h)
          obtain ⟨a, b, rfl, ha⟩ := List.eq_append_cons_of_mem hc.2
          exact ⟨b, by rw [takeWhile_upto ha], hc.1, by rwa [takeWhile_upto ha]⟩
        · cases h
    · cases h
  · rintro ⟨rest, rfl, hq, hv⟩
    rw [attrAt, if_pos (List.isPrefixOf_iff_prefix.mpr (List.prefix_append _ _)), List.drop_left]
    have hmem : q ∈ v ++ q :: rest := List.mem_append_right _ List.mem_cons_self
    show (if isQuote q && decide (q ∈ v ++ q :: rest) then _ else _) = _
    rw [hq, decide_eq_true hmem, Bool.and_self, if_pos rfl, takeWhile_upto hv]

theorem piecesFrom_append (a s : List Char) : piecesFrom a.length (a ++ s) = pieces s := by
  induction a with
  | nil => rfl
  | cons c a ih => exact ih

theorem pieces_cons (c : Char) (s : List Char) : pieces (c :: s) =
    match attrAt (c :: s) with
    | some (q, v) => .attr q v :: piecesFrom (v.length + 5) s
    | none => .char c :: piecesFrom 0 s := rfl

theorem pieces_of_attrAt {c : Char} (h : attrAt (c :: s) = some (q, v)) :
    pieces (c :: s) = .attr q v :: piecesFrom (v.length + 5) s := by
  rw [pieces_cons, h]

theorem pieces_attr (hq : isQuote q = true) (hv : q ∉ v) :
    pieces (uriText ++ q :: (v ++ q :: s)) = .attr q v :: pieces s := by
  have hat : attrAt (uriText ++ q :: (v ++ q :: s)) = some (q, v) :=
    attrAt_eq_some_iff.mpr ⟨s, rfl, hq, hv⟩
  have hskip : ("RI=".toList ++ q :: (v ++ [q])).length = v.length + 5 := by
    simp only [List.length_append, List.length_cons, List.length_nil]
    show 3 + _ = _
    omega
  have htext : "RI=".toList ++ q :: (v ++ q :: s) = ("RI=".toList ++ q :: (v ++ [q])) ++ s := by
    simp
  refine (pieces_of_attrAt (c := 'U') hat).trans (congrArg _ ?_)
  show piecesFrom _ ("RI=".toList ++ q :: (v ++ q :: s)) = _
  rw [htext, ← hskip, piecesFrom_append]

theorem pieces_char {c : Char} (h : attrAt (c :: s) = none) :
    pieces (c :: s) = .char c :: pieces s := by
  rw [pieces_cons, h]
  rfl

/-- **Reading a tag piece by piece.** -/
theorem pieces_induction {P : List Char → Prop} (nil : P [])
    (char : ∀ c s, attrAt (c :: s) = none → P s → P (c :: s))
    (attr : ∀ q v s, isQuote q = true → q ∉ v → P s → P (uriText ++ q :: (v ++ q :: s)))
    (s : List Char) : P s := by
  induction hlen : s.length using Nat.strong_induction_on generalizing s with
  | _ n ih =>
  rcases s with _ | ⟨c, s⟩
  · exact nil
  · rcases hat : attrAt (c :: s) with _ | ⟨q, v⟩
    · exact char c s hat (ih s.length (by simp [← hlen]) s rfl)
    · obtain ⟨rest, hs, hq, hv⟩ := attrAt_eq_some_iff.mp hat
      rw [hs] at hlen ⊢
      refine attr q v rest hq hv (ih rest.length ?_ rest rfl)
      rw [← hlen]
      simp only [List.length_append, List.length_cons]
      omega

def Piece.source : Piece → List Char
  | .char c => [c]
  | .attr q v => uriText ++ q :: (v ++ [q])

/-- **The pieces of a text make it up.** -/
theorem flatMap_source (s : List Char) : (pieces s).flatMap Piece.source = s := by
  induction s using pieces_induction with
  | nil => rfl
  | char c s h ih => rw [pieces_char h, List.flatMap_cons, ih, Piece.source, List.singleton_append]
  | attr q v s hq hv ih =>
    rw [pieces_attr hq hv, List.flatMap_cons, ih, Piece.source]
    simp

end places

/-! ### What the replacement leaves of a tag -/

section tags

variable {token s out : List Char} {prev : Option Char} {q : Char} {v : List Char}

/-- **A replacement of values**: what matches is a value in quotes that has none itself, and another
text is put in its quotes. -/
structure Puts (r : Regex Char) (by' : List Char → Pos Char → List Char)
    (f : List Char → List Char) : Prop where
  matchAt_iff : ∀ {prev s p}, matchAt r prev s = some p ↔ ∃ q w rest,
    s = uriText ++ q :: (w ++ q :: rest) ∧ isQuote q = true ∧ Plain w ∧
      p = ⟨some q, rest, [(if q = '"' then 1 else 2, w)]⟩
  put : ∀ {q : Char} (m rest v : List Char), isQuote q = true →
    by' m ⟨some q, rest, [(if q = '"' then 1 else 2, v)]⟩ = uriText ++ q :: (f v ++ [q])

theorem puts_token (token : List Char) : Puts uriAttr (replaceUri token) (tokenize token) where
  matchAt_iff := matchAt_uriAttr_iff
  put _ _ _ hq := by
    rcases isQuote_iff.mp hq with rfl | rfl
    · rfl
    · rfl

def Piece.put (f : List Char → List Char) : Piece → List Char
  | .char c => [c]
  | .attr q v => uriText ++ q :: (f v ++ [q])

theorem flatMap_text (token s : List Char) :
    (pieces s).flatMap (Piece.text token) = (pieces s).flatMap (Piece.put (withToken token)) := by
  refine List.flatMap_congr fun x _ => ?_
  cases x <;> rfl

namespace Puts

variable {r : Regex Char} {by' : List Char → Pos Char → List Char} {f : List Char → List Char}

/-- **What a match is, and what comes of it.** -/
theorem exists_of_match (hr : Puts r by' f) {m rest : List Char} {p : Pos Char}
    (hmatch : matchAt r prev (m ++ rest) = some p) (hp : p.rest = rest) :
    ∃ q w, m = uriText ++ q :: (w ++ [q]) ∧ isQuote q = true ∧ Plain w ∧
      by' m p = uriText ++ q :: (f w ++ [q]) := by
  obtain ⟨q, w, rest', htext, hq, hw, rfl⟩ := hr.matchAt_iff.mp hmatch
  obtain rfl : rest' = rest := hp
  have hparts : m ++ rest' = uriText ++ q :: (w ++ [q]) ++ rest' := htext.trans (by simp)
  exact ⟨q, w, List.append_cancel_right hparts, hq, hw, hr.put m rest' w hq⟩

theorem rest_ne (hr : Puts r by' f) {p : Pos Char} (h : matchAt r prev s = some p) :
    p.rest ≠ s := by
  obtain ⟨q, w, rest, rfl, -, -, rfl⟩ := hr.matchAt_iff.mp h
  intro hrest
  have hlen := congrArg List.length hrest
  simp only [List.length_append, List.length_cons] at hlen
  omega

theorem replaced_char (hr : Puts r by' f) (h : Replaced r by' prev (c :: s) out)
    (hnone : ∀ q w rest, isQuote q = true → Plain w → c :: s ≠ uriText ++ q :: (w ++ q :: rest)) :
    ∃ out', out = c :: out' ∧ Replaced r by' (some c) s out' := by
  rcases h.cons_inv with ⟨-, hkept⟩ | ⟨m, rest, p, out', -, hmatch, -⟩
  · exact hkept
  · obtain ⟨q, w, rest, hs, hq, hw, -⟩ := hr.matchAt_iff.mp hmatch
    exact absurd hs (hnone q w rest hq hw)

theorem replaced_attr (hr : Puts r by' f) (hq : isQuote q = true) (hv : Plain v)
    (h : Replaced r by' prev (uriText ++ q :: (v ++ q :: s)) out) :
    ∃ prev' out', out = uriText ++ q :: (f v ++ q :: out') ∧ Replaced r by' prev' s out' := by
  have hmatch : ∀ prev, matchAt r prev (uriText ++ q :: (v ++ q :: s)) =
      some ⟨some q, s, [(if q = '"' then 1 else 2, v)]⟩ :=
    fun prev => hr.matchAt_iff.mpr ⟨q, v, s, rfl, hq, hv, rfl⟩
  rcases Replaced.cons_inv (c := 'U') h with
    ⟨hnone, -⟩ | ⟨m, rest, p, out', hs, hp, hrest, hout, htail⟩
  · exact absurd ((hmatch prev).symm.trans hnone) (Option.some_ne_none _)
  · obtain rfl := Option.some.inj ((hmatch prev).symm.trans hp)
    obtain rfl : s = rest := hrest
    refine ⟨_, out', ?_, htail⟩
    rw [hout, hr.put m _ v hq]
    simp

/-- **The values are replaced where they stand** if every one is a value that the pattern takes. -/
theorem text_of_replaced {g : List Char → List Char} (hr : Puts r by' f)
    (hplain : ∀ q v, .attr q v ∈ pieces s → Plain v ∧ g v = f v)
    (h : Replaced r by' prev s out) : out = (pieces s).flatMap (Piece.put g) := by
  induction s using pieces_induction generalizing prev out with
  | nil => exact h.nil_inv
  | char c s hnone ih =>
    rw [pieces_char hnone] at hplain ⊢
    obtain ⟨out', rfl, htail⟩ := hr.replaced_char h fun q w rest hq hw hs =>
      Option.some_ne_none _ ((attrAt_eq_some_iff.mpr ⟨rest, hs, hq, hw.notMem hq⟩).symm.trans hnone)
    rw [ih (fun q v hv => hplain q v (List.mem_cons_of_mem _ hv)) htail]
    rfl
  | attr q v s hq hv ih =>
    rw [pieces_attr hq hv] at hplain ⊢
    obtain ⟨hv', hg⟩ := hplain q v List.mem_cons_self
    obtain ⟨prev', out', rfl, htail⟩ := hr.replaced_attr hq hv' h
    rw [ih (fun q v hv => hplain q v (List.mem_cons_of_mem _ hv)) htail, List.flatMap_cons,
      Piece.put, hg]
    simp

end Puts

theorem part_of_append {d e : Char} {m r o a y z : List Char} (hs : m ++ r = a ++ d :: y)
    (hout : m ++ o = a ++ e :: z) (hne : d ≠ e) :
    ∃ a', a = m ++ a' ∧ r = a' ++ d :: y ∧ o = a' ++ e :: z := by
  induction m generalizing a with
  | nil => exact ⟨a, rfl, hs, hout⟩
  | cons c m ih =>
    rcases a with _ | ⟨b, a⟩
    · exact absurd ((List.cons.inj hs).1.symm.trans (List.cons.inj hout).1) hne
    · obtain ⟨rfl, hs'⟩ := List.cons.inj hs
      obtain ⟨a', rfl, hr, ho⟩ := ih hs' (List.cons.inj hout).2
      exact ⟨a', rfl, hr, ho⟩

theorem separator_cases (uri : List Char) : separator uri = '&' ∨ separator uri = '?' := by
  rw [separator]
  split
  · exact .inl rfl
  · exact .inr rfl

/-- **The first change to a tag is at the closing quote of a value without quotes.** -/
theorem quote_of_change (h : Replaced uriAttr (replaceUri token) prev s out) {d e : Char}
    {a y z : List Char} (hs : s = a ++ d :: y) (hout : out = a ++ e :: z) (hne : d ≠ e) :
    isQuote d = true ∧ ∃ before w, a = before ++ (uriText ++ d :: w) ∧ Plain w := by
  induction h generalizing a with
  | nil => exact absurd hs.symm (List.append_ne_nil_of_right_ne_nil _ (List.cons_ne_nil _ _))
  | @keep prev c s out hnone hrest ih =>
    obtain ⟨a', rfl, hs', hout'⟩ := part_of_append (m := [c]) hs hout hne
    obtain ⟨hd, before, w, rfl, hw⟩ := ih hs' hout'
    exact ⟨hd, c :: before, w, rfl, hw⟩
  | @hit prev m rest out p hnil hmatch hp hrest ih =>
    obtain ⟨q, w, hm, hq, hw, hput⟩ := (puts_token token).exists_of_match hmatch hp
    rw [hput] at hout
    by_cases habs : absolute w = true
    · -- an absolute value is put back as it was, and the change comes later
      rw [tokenize, if_pos habs, ← hm] at hout
      obtain ⟨a', rfl, hs', hout'⟩ := part_of_append hs hout hne
      obtain ⟨hd, before, w', rfl, hw'⟩ := ih hs' hout'
      exact ⟨hd, m ++ before, w', (List.append_assoc ..).symm, hw'⟩
    · rw [tokenize, if_neg habs] at hout
      obtain ⟨a', rfl, hs', hout'⟩ := part_of_append (m := uriText ++ q :: w)
        (r := q :: rest) (o := separator w :: (param token ++ [q] ++ out)) (by simpa [hm] using hs)
        (by simpa using hout) hne
      rcases a' with _ | ⟨b, a'⟩
      · obtain ⟨rfl, -⟩ := List.cons.inj hs'
        exact ⟨hq, [], w, by simp, hw⟩
      · -- the separator is not a quote
        have hsep : q = separator w :=
          (List.cons.inj hs').1.trans (List.cons.inj hout').1.symm
        rcases separator_cases w with hw | hw
        all_goals
          rw [hsep, hw] at hq
          exact absurd hq (by decide)

theorem absolute_ne_nil (h : absolute v = true) : v ≠ [] := by
  rintro rfl
  exact absurd h (by decide)

theorem takeWhile_fragment (h : '#' ∉ v) : v.takeWhile (· ≠ '#') = v :=
  List.takeWhile_eq_self_iff.mpr fun _ hc => decide_eq_true fun heq => h (heq ▸ hc)

theorem withToken_of_extends (h : Extends token v) : withToken token v = tokenize token v := by
  rw [withToken, tokenize]
  rcases h with habs | ⟨hfragment, -⟩
  · rw [if_pos habs, if_pos habs]
  · have hbase := takeWhile_fragment hfragment
    have hrest : v.dropWhile (· ≠ '#') = [] :=
      List.dropWhile_eq_nil_iff.mpr (List.takeWhile_eq_self_iff.mp hbase)
    rw [hbase, hrest, List.append_nil]

/-- **The token goes where the pattern puts it** if every value is one that the pattern takes. -/
theorem text_of_replaced (hregular : ∀ q v, .attr q v ∈ pieces s → Plain v ∧ Extends token v)
    (h : Replaced uriAttr (replaceUri token) prev s out) :
    out = (pieces s).flatMap (Piece.text token) := by
  rw [flatMap_text]
  refine (puts_token token).text_of_replaced (fun q v hv => ?_) h
  obtain ⟨hplain, hextends⟩ := hregular q v hv
  exact ⟨hplain, withToken_of_extends hextends⟩

/-- **A value that the token is put on has no quotes and no fragment.** The token changes it at its
closing quote or at its fragment, and of these the pattern changes only the one. -/
theorem plain_of_withToken (hv : q ∉ v) (hrel : absolute v = false)
    (h : Replaced uriAttr (replaceUri token) prev (uriText ++ q :: (v ++ q :: s))
      (uriText ++ q :: (withToken token v ++ q :: out))) (hq : isQuote q = true) :
    Plain v ∧ '#' ∉ v := by
  have hne : ∀ {d : Char} {uri : List Char}, isQuote d = true ∨ d = '#' → d ≠ separator uri := by
    rintro d uri hd rfl
    rcases separator_cases uri with h | h
    all_goals
      rw [h] at hd
      exact absurd hd (by decide)
  rw [withToken, if_neg (Bool.eq_false_iff.mp hrel)] at h
  by_cases hfragment : '#' ∈ v
  · -- the change would be at the fragment
    obtain ⟨base, rest, rfl, hbase⟩ := List.eq_append_cons_of_mem hfragment
    rw [takeWhile_upto hbase] at h
    obtain ⟨hquote, -⟩ := quote_of_change h (a := uriText ++ q :: base) (d := '#')
      (y := rest ++ q :: s) (e := separator base) (by simp) (by simp; rfl) (hne (.inr rfl))
    exact absurd hquote (by decide)
  · rw [takeWhile_fragment hfragment] at h
    obtain ⟨-, before, w, ha, hw⟩ := quote_of_change h (a := uriText ++ q :: v) (d := q)
      (y := s) (e := separator v) (by simp) (by simp; rfl) (hne (.inl hq))
    rw [← List.append_assoc] at ha
    obtain ⟨-, -, rfl⟩ :=
      (List.append_cons_inj_of_notMem (notMem_uriText_of_isQuote hq) hv).mp ha
    exact ⟨hw, hfragment⟩

/-- **Where the pattern puts the token is where it belongs** only if every value is one that the
pattern takes. -/
theorem regular_of_replaced (htoken : '\n' ∉ token)
    (habs : ∀ q v, .attr q v ∈ pieces s → absolute v = true → ∀ c ∈ v, isQuote c = false)
    (h : Replaced uriAttr (replaceUri token) prev s ((pieces s).flatMap (Piece.text token))) :
    ∀ q v, .attr q v ∈ pieces s → Plain v ∧ Extends token v := by
  induction s using pieces_induction generalizing prev with
  | nil => exact fun q v hv => absurd hv List.not_mem_nil
  | char c s hnone ih =>
    rw [pieces_char hnone] at habs h ⊢
    obtain ⟨out', hout, htail⟩ := (puts_token token).replaced_char h fun q w rest hq hw hs =>
      Option.some_ne_none _ ((attrAt_eq_some_iff.mpr ⟨rest, hs, hq, hw.notMem hq⟩).symm.trans hnone)
    obtain rfl := (List.cons.inj hout).2
    have hih := ih (fun q v hv => habs q v (List.mem_cons_of_mem _ hv)) htail
    exact fun q v hv => hih q v ((List.mem_cons.mp hv).resolve_left (by rintro ⟨⟩))
  | attr q v s hq hv ih =>
    rw [pieces_attr hq hv] at habs h ⊢
    have htext : (Piece.attr q v :: pieces s).flatMap (Piece.text token) =
        uriText ++ q :: (withToken token v ++ q :: (pieces s).flatMap (Piece.text token)) := by
      rw [List.flatMap_cons, Piece.text]
      simp
    rw [htext] at h
    have hhead : Plain v ∧ Extends token v := by
      by_cases habsolute : absolute v = true
      · exact ⟨⟨absolute_ne_nil habsolute, habs q v List.mem_cons_self habsolute⟩, .inl habsolute⟩
      · obtain ⟨hplain, hfragment⟩ :=
          plain_of_withToken hv (Bool.eq_false_iff.mpr habsolute) h hq
        exact ⟨hplain, .inr ⟨hfragment, htoken⟩⟩
    obtain ⟨prev', out', hout, htail⟩ := (puts_token token).replaced_attr hq hhead.1 h
    rw [withToken_of_extends hhead.2] at hout
    obtain rfl := (List.cons.inj (List.append_cancel_left (List.cons.inj
      (List.append_cancel_left hout)).2)).2
    rintro q' v' hmem
    rcases List.mem_cons.mp hmem with heq | hmem
    · obtain ⟨rfl, rfl⟩ := Piece.attr.inj heq
      exact hhead
    · exact ih (fun q v hv => habs q v (List.mem_cons_of_mem _ hv)) htail q' v' hmem

end tags

/-! ### Lines -/

section lines

variable {token line : List Char}

theorem infix_of_trim {α : Type} {p : α → Bool} {a b m t : List α} {c d : α} {x y : List α}
    (h : x ++ (t ++ y) = a ++ (m ++ b)) (hx : ∀ e ∈ x, p e = true) (hy : ∀ e ∈ y, p e = true)
    (hhead : m.head? = some c) (hc : p c = false) (hlast : m.getLast? = some d)
    (hd : p d = false) : m <:+: t := by
  have hleft : ∃ a', t ++ y = (a' ++ m) ++ b := by
    rcases List.append_eq_append_iff.mp h with ⟨a', -, heq⟩ | ⟨x', rfl, heq⟩
    · exact ⟨a', heq.trans (List.append_assoc ..).symm⟩
    · rcases x' with _ | ⟨e, x'⟩
      · exact ⟨[], heq.symm⟩
      · rcases m with _ | ⟨e', m⟩
        · cases hhead
        · obtain rfl : e' = c := Option.some.inj hhead
          obtain rfl : e' = e := (List.cons.inj heq).1
          rw [hx e' (List.mem_append_right _ List.mem_cons_self)] at hc
          exact absurd hc.symm Bool.false_ne_true
  obtain ⟨a', h⟩ := hleft
  rcases List.append_eq_append_iff.mp h with ⟨y', hm, rfl⟩ | ⟨t', rfl, -⟩
  · rcases List.eq_nil_or_concat y' with rfl | ⟨y', e, rfl⟩
    · exact ⟨a', [], by rw [List.append_nil, hm, List.append_nil]⟩
    · have hlast' : (a' ++ m).getLast? = some e := by
        rw [hm, List.concat_eq_append, ← List.append_assoc, List.getLast?_concat]
      rw [List.getLast?_append, hlast] at hlast'
      obtain rfl : d = e := Option.some.inj hlast'
      rw [hy d (List.mem_append_left _ (by simp))] at hd
      exact absurd hd.symm Bool.false_ne_true
  · exact ⟨a', t', rfl⟩

/-- **A tag has no match if what is left of it after trimming has none.** -/
theorem allAt_of_trim (h : isMatch uriAttr (trimMatches jsSpace line) = false) :
    AllAt (fun prev s => matchAt uriAttr prev s = none) none line := by
  rw [isMatch_eq_false_iff, allAt_iff] at h
  rw [allAt_iff]
  rintro a b hab
  rcases hmatch : matchAt uriAttr (lastOr none a) b with _ | p
  · rfl
  · obtain ⟨q, w, rest, rfl, hq, hw, -⟩ := matchAt_uriAttr_iff.mp hmatch
    obtain ⟨x, y, hline, hx, hy⟩ := exists_trim jsSpace line
    have hspace : jsSpace q = false := by
      rcases isQuote_iff.mp hq with rfl | rfl
      all_goals decide
    have htext : uriText ++ q :: (w ++ q :: rest) = (uriText ++ q :: (w ++ [q])) ++ rest := by simp
    obtain ⟨u, u', hu⟩ := infix_of_trim (m := uriText ++ q :: (w ++ [q])) (c := 'U') (d := q)
      (hline.symm.trans (hab.trans (congrArg _ htext))) hx hy rfl (by decide)
      (by rw [← List.cons_append, ← List.append_assoc, List.getLast?_concat]) hspace
    have hnone := h u ((uriText ++ q :: (w ++ [q])) ++ u') (by rw [← hu, List.append_assoc])
    rw [matchAt_uriAttr_iff.mpr ⟨q, w, u', by simp, hq, hw, rfl⟩] at hnone
    cases hnone

theorem replaced_self {s : List Char} {prev : Option Char}
    (h : AllAt (fun prev s => matchAt uriAttr prev s = none) prev s) :
    Replaced uriAttr (replaceUri token) prev s s := by
  induction s generalizing prev with
  | nil => exact .nil prev
  | cons c s ih => exact .keep h.1 (ih h.2)

/-- **What becomes of a tag.** -/
theorem replaced_tokenLine (htag : (trimMatches jsSpace line).head? = some '#') :
    Replaced uriAttr (replaceUri token) none line (tokenLine token line) := by
  rw [tokenLine]
  by_cases hmatch : isMatch uriAttr (trimMatches jsSpace line) = true
  · rw [if_pos (by rw [decide_eq_true htag, hmatch]; rfl)]
    exact replaced_replaceFrom _ (fun prev s p hp => (puts_token token).rest_ne hp) none line
  · rw [if_neg (by rw [Bool.eq_false_iff.mpr hmatch, Bool.and_false]; exact Bool.false_ne_true),
      if_pos (by rw [decide_eq_true htag, Bool.or_true])]
    exact replaced_self (allAt_of_trim (Bool.eq_false_iff.mpr hmatch))

theorem tokenLine_blank (hblank : trimMatches jsSpace line = []) : tokenLine token line = line := by
  rw [tokenLine, hblank]
  rfl

theorem tokenLine_uri (hne : trimMatches jsSpace line ≠ [])
    (huri : (trimMatches jsSpace line).head? ≠ some '#') :
    tokenLine token line = tokenize token (trimMatches jsSpace line) := by
  have hempty : (trimMatches jsSpace line).isEmpty = false := by
    rwa [List.isEmpty_eq_false_iff]
  rw [tokenLine, decide_eq_false huri, hempty]
  rfl

theorem signedLine_tag (htag : (trimMatches jsSpace line).head? = some '#') :
    signedLine token line = (pieces line).flatMap (Piece.text token) := by
  have hne : trimMatches jsSpace line ≠ [] := List.ne_nil_of_mem (List.mem_of_head? htag)
  rw [signedLine, if_neg hne, if_pos htag]

theorem signedLine_uri (hne : trimMatches jsSpace line ≠ [])
    (huri : (trimMatches jsSpace line).head? ≠ some '#') :
    signedLine token line = withToken token (trimMatches jsSpace line) := by
  rw [signedLine, if_neg hne, if_neg huri]

theorem regular_tag (htag : (trimMatches jsSpace line).head? = some '#') :
    Regular token line ↔ ∀ q v, .attr q v ∈ pieces line → Plain v ∧ Extends token v := by
  have hne : trimMatches jsSpace line ≠ [] := List.ne_nil_of_mem (List.mem_of_head? htag)
  rw [Regular, if_pos htag]
  exact ⟨fun h => h hne, fun h _ => h⟩

theorem regular_uri (hne : trimMatches jsSpace line ≠ [])
    (huri : (trimMatches jsSpace line).head? ≠ some '#') :
    Regular token line ↔ Extends token (trimMatches jsSpace line) := by
  rw [Regular, if_neg huri]
  exact ⟨fun h => h hne, fun h _ => h⟩

/-- **A regular line is rewritten as asked for.** -/
theorem tokenLine_of_regular (h : Regular token line) :
    tokenLine token line = signedLine token line := by
  by_cases hblank : trimMatches jsSpace line = []
  · rw [tokenLine_blank hblank, signedLine, if_pos hblank]
  · by_cases htag : (trimMatches jsSpace line).head? = some '#'
    · rw [signedLine_tag htag]
      exact text_of_replaced ((regular_tag htag).mp h) (replaced_tokenLine htag)
    · rw [tokenLine_uri hblank htag, signedLine_uri hblank htag,
        withToken_of_extends ((regular_uri hblank htag).mp h)]

theorem extends_of_tokenize {uri : List Char} (htoken : '\n' ∉ token)
    (h : tokenize token uri = withToken token uri) : Extends token uri := by
  rw [tokenize, withToken] at h
  by_cases habs : absolute uri = true
  · exact .inl habs
  · refine .inr ⟨fun hfragment => ?_, htoken⟩
    rw [if_neg habs, if_neg habs] at h
    obtain ⟨base, rest, rfl, hbase⟩ := List.eq_append_cons_of_mem hfragment
    rw [takeWhile_upto hbase, List.append_assoc] at h
    have hsep : '#' = separator base := (List.cons.inj (List.append_cancel_left h)).1
    rcases separator_cases base with hcase | hcase
    all_goals
      rw [hcase] at hsep
      exact absurd hsep (by decide)

/-- **A line that is rewritten as asked for is regular.** -/
theorem regular_of_tokenLine (htoken : '\n' ∉ token) (habs : AbsolutePlain line)
    (h : tokenLine token line = signedLine token line) : Regular token line := by
  by_cases hblank : trimMatches jsSpace line = []
  · exact fun hne => absurd hblank hne
  · by_cases htag : (trimMatches jsSpace line).head? = some '#'
    · have hreplaced : Replaced uriAttr (replaceUri token) none line (tokenLine token line) :=
        replaced_tokenLine htag
      rw [h, signedLine_tag htag] at hreplaced
      exact (regular_tag htag).mpr (regular_of_replaced htoken (habs htag) hreplaced)
    · rw [tokenLine_uri hblank htag, signedLine_uri hblank htag] at h
      exact (regular_uri hblank htag).mpr (extends_of_tokenize htoken h)

/-! ### Line breaks -/

theorem mem_of_mem_trim {α : Type} {p : α → Bool} {l : List α} {a : α}
    (h : a ∈ trimMatches p l) : a ∈ l := by
  obtain ⟨x, y, hl, -⟩ := exists_trim p l
  rw [hl]
  exact List.mem_append_right _ (List.mem_append_left _ h)

theorem newline_separator (uri : List Char) : '\n' ≠ separator uri := by
  rcases separator_cases uri with h | h
  all_goals
    rw [h]
    decide

theorem newline_tokenize {uri : List Char} (h : absolute uri = true ∨ '\n' ∉ token)
    (huri : '\n' ∉ uri) : '\n' ∉ tokenize token uri := by
  rw [tokenize]
  by_cases habs : absolute uri = true
  · rwa [if_pos habs]
  · rw [if_neg habs, List.mem_append, List.mem_cons, param, List.mem_append]
    rintro (hmem | hmem | hmem | hmem)
    · exact huri hmem
    · exact newline_separator uri hmem
    · exact absurd hmem (by decide)
    · exact h.elim habs (· hmem)

theorem newline_attr {q : Char} {v : List Char} (hq : isQuote q = true) :
    '\n' ∈ uriText ++ q :: (v ++ [q]) ↔ '\n' ∈ v := by
  have hne : '\n' ≠ q := by
    rintro rfl
    exact absurd hq (by decide)
  simp [uriText, hne]

theorem Puts.newline {r : Regex Char} {by' : List Char → Pos Char → List Char}
    {f : List Char → List Char} (hr : Puts r by' f) (hf : ∀ v, '\n' ∉ v → '\n' ∉ f v)
    {prev : Option Char} {s out : List Char} (h : Replaced r by' prev s out) (hs : '\n' ∉ s) :
    '\n' ∉ out := by
  induction h with
  | nil => exact hs
  | keep hnone hrest ih =>
    rw [List.mem_cons, not_or] at hs ⊢
    exact ⟨hs.1, ih hs.2⟩
  | @hit prev m rest out p hnil hmatch hp hrest ih =>
    obtain ⟨q, w, hm, hq, -, hput⟩ := hr.exists_of_match hmatch hp
    rw [List.mem_append, not_or] at hs ⊢
    rw [hm, newline_attr hq] at hs
    rw [hput, newline_attr hq]
    exact ⟨hf w hs.1, ih hs.2⟩

/-- **A line stays one line** if the token is on one. -/
theorem newline_tokenLine (htoken : '\n' ∉ token) (hline : '\n' ∉ line) :
    '\n' ∉ tokenLine token line := by
  by_cases hblank : trimMatches jsSpace line = []
  · rwa [tokenLine_blank hblank]
  · by_cases htag : (trimMatches jsSpace line).head? = some '#'
    · exact (puts_token token).newline (fun _ => newline_tokenize (.inr htoken))
        (replaced_tokenLine htag) hline
    · rw [tokenLine_uri hblank htag]
      exact newline_tokenize (.inr htoken) fun h => hline (mem_of_mem_trim h)

theorem newline_withToken {uri : List Char} (hrel : absolute uri ≠ true) (htoken : '\n' ∈ token) :
    '\n' ∈ withToken token uri := by
  rw [withToken, if_neg hrel]
  refine List.mem_append_right _ (List.mem_cons_of_mem _ (List.mem_append_left _ ?_))
  exact List.mem_append_right _ htoken

/-- **A line that is to stay one line has no relative URI** if the token has a line break. -/
theorem regular_of_newline (htoken : '\n' ∈ token) (habs : AbsolutePlain line)
    (h : '\n' ∉ signedLine token line) : Regular token line := by
  by_cases hblank : trimMatches jsSpace line = []
  · exact fun hne => absurd hblank hne
  · by_cases htag : (trimMatches jsSpace line).head? = some '#'
    · rw [signedLine_tag htag] at h
      refine (regular_tag htag).mpr fun q v hv => ?_
      have habsolute : absolute v = true := by
        by_contra hrel
        refine h (List.mem_flatMap.mpr ⟨_, hv, ?_⟩)
        refine List.mem_append_right _ (List.mem_cons_of_mem _ (List.mem_append_left _ ?_))
        exact newline_withToken hrel htoken
      exact ⟨⟨absolute_ne_nil habsolute, habs htag q v hv habsolute⟩, .inl habsolute⟩
    · rw [signedLine_uri hblank htag] at h
      refine (regular_uri hblank htag).mpr (.inl ?_)
      by_contra hrel
      exact h (newline_withToken hrel htoken)

theorem newline_signedLine (hregular : Regular token line) (hline : '\n' ∉ line) :
    '\n' ∉ signedLine token line := by
  by_cases htoken : '\n' ∈ token
  · have habs : ∀ {uri}, Extends token uri → absolute uri = true :=
      fun h => h.elim id fun h => absurd htoken h.2
    by_cases hblank : trimMatches jsSpace line = []
    · rwa [signedLine, if_pos hblank]
    · by_cases htag : (trimMatches jsSpace line).head? = some '#'
      · have htext : ∀ x ∈ pieces line, x.text token = x.source := by
          rintro (c | ⟨q, v⟩) hx
          · rfl
          · rw [Piece.text, withToken, if_pos (habs ((regular_tag htag).mp hregular q v hx).2),
              Piece.source]
        rwa [signedLine_tag htag, List.flatMap_congr htext, flatMap_source]
      · rw [signedLine_uri hblank htag, withToken,
          if_pos (habs ((regular_uri hblank htag).mp hregular))]
        exact fun h => hline (mem_of_mem_trim h)
  · rw [← tokenLine_of_regular hregular]
    exact newline_tokenLine htoken hline

end lines

/-! ### The manifest -/

theorem splitOn_appendToken {manifest token : List Char}
    (h : ∀ line ∈ manifest.splitOn '\n', '\n' ∉ tokenLine token line) :
    (appendTokenToManifest manifest token).splitOn '\n' =
      (manifest.splitOn '\n').map (tokenLine token) := by
  refine List.splitOn_intercalate '\n' (fun out hout => ?_)
    (List.map_eq_nil_iff.not.mpr (List.splitOn_ne_nil _ _))
  obtain ⟨line, hline, rfl⟩ := List.mem_map.mp hout
  exact h line hline

instance decidableRewritten (manifest token : List Char) : Decidable (Rewritten manifest token) :=
  inferInstanceAs (Decidable (_ = _))

/-- **When every URI of a manifest gets the token**: if each quoted value of a tag is one that the
pattern takes, and each relative URI ends with its query. As long as no absolute value has a quote,
only then. -/
theorem rewritten_of_regular (manifest token : List Char) :
    ((∀ line ∈ manifest.splitOn '\n', Regular token line) → Rewritten manifest token) ∧
      ((∀ line ∈ manifest.splitOn '\n', AbsolutePlain line) → Rewritten manifest token →
        ∀ line ∈ manifest.splitOn '\n', Regular token line) := by
  constructor
  · intro hregular
    have hline : ∀ line ∈ manifest.splitOn '\n', tokenLine token line = signedLine token line :=
      fun line hline => tokenLine_of_regular (hregular line hline)
    rw [Rewritten, splitOn_appendToken, List.map_congr_left hline]
    intro line hmem
    rw [hline line hmem]
    exact newline_signedLine (hregular line hmem) (Words.notMem_of_mem_splitOn hmem)
  · intro habs h line hline
    have hsigned : '\n' ∉ signedLine token line := by
      refine Words.notMem_of_mem_splitOn (l := appendTokenToManifest manifest token) ?_
      rw [show List.splitOn '\n' _ = _ from h]
      exact List.mem_map_of_mem hline
    by_cases htoken : '\n' ∈ token
    · exact regular_of_newline htoken (habs line hline) hsigned
    · rw [Rewritten, splitOn_appendToken fun line hline =>
        newline_tokenLine htoken (Words.notMem_of_mem_splitOn hline)] at h
      exact regular_of_tokenLine htoken (habs line hline) (List.map_inj_left.mp h line hline)

/-- A value with an apostrophe in its double quotes goes without the token. -/
theorem not_rewritten_apostrophe :
    ¬ Rewritten "#EXTM3U\n#EXT-X-MAP:URI=\"it's.mp4\"".toList "T".toList := by
  decide +kernel

end EmeraldExchange.ManifestToken
