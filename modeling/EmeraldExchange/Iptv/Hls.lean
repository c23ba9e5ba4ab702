import EmeraldExchange.Gateway.ManifestToken
import EmeraldExchange.Lib.Base64

/-!
# On-demand manifests

The URLs in a provider's manifest have the account's name and password in them. Before a manifest
goes to a client, every reference in it is resolved against the URL it was fetched from and replaced
by a URL of this server, which has a signed token for it: the lines that are references, and the
quoted values of `URI=` in the lines that are tags.

What is asked for reads a tag piece by piece (`ManifestToken.pieces`), where a value
lasts up to the next quote of its own kind. The pattern of the code takes no quote of either kind
into a value, and no empty value, so that a value with an apostrophe in it goes to the client as the
provider wrote it. The two are compared at the first quote that the code leaves of a value
(`first_quote`): the pattern changes nothing before it.
-/

namespace EmeraldExchange.Iptv.Hls

open Regex
open ManifestToken (isQuote uriText quoted Plain Piece pieces Puts isQuote_iff attrAt_eq_some_iff
  pieces_induction pieces_char pieces_attr mem_run_quoted exists_mem_run_quoted
  matchAt_iff_of_ways notMem_uriText_of_isQuote upto_inj)

/-! ### What the code does -/

/-- `is_word_id` -/
def isWordId (s : List Char) : Bool :=
  !s.isEmpty && s.all fun c => c.isAlphanum || c = '_' || c = '-'

inductive OwnerKind
  | vod
  | series
  deriving DecidableEq

def OwnerKind.text : OwnerKind → List Char
  | .vod => "vod".toList
  | .series => "series".toList

/-- **The grant that a rewritten URL belongs to.** Wherever one is made, its id is a word. -/
structure Owner where
  kind : OwnerKind
  id : List Char
  isWordId_id : isWordId id = true

/-- `owner_query`: the end of a query that names the owner. -/
def ownerQuery : Option Owner → List Char
  | none => []
  | some o => "&ok=".toList ++ o.kind.text ++ "&oid=".toList ++ o.id

def SEGMENT_PATH : List Char := "/api/iptv/stream/segment".toList

/-- `URI="([^"']+)"|URI='([^"']+)'` -/
def uriAttr : Regex Char :=
  .alt (.cat (literal uriText) (quoted '"' 1)) (.cat (literal uriText) (quoted '\'' 2))

/-- What a match is replaced by, if references are replaced by `rewritten`. -/
def replaceUri (rewritten : List Char → List Char) (m : List Char) (p : Pos Char) : List Char :=
  match p.group 1, p.group 2 with
  | some uri, _ => uriText ++ '"' :: (rewritten uri ++ ['"'])
  | none, some uri => uriText ++ '\'' :: (rewritten uri ++ ['\''])
  | none, none => m

/-- A line without a carriage return at its end. -/
def stripReturn (line : List Char) : List Char :=
  if line.getLast? = some '\r' then line.dropLast else line

def rewriteLine (rewritten : List Char → List Char) (line : List Char) : List Char :=
  if line.head? = some '#' && isMatch uriAttr line then
    replaceAll uriAttr (replaceUri rewritten) line
  else if line.isEmpty || line.head? = some '#' then line
  else rewritten line

section code

/- `Url::parse(base)` joined with a reference; the bytes of the claims for a URL, and their MAC. -/
variable (join : List Char → List Char → Option (List Char)) (claims : List Char → List UInt8)
  (mac : List UInt8 → List UInt8)

def resolve (base reference : List Char) : List Char := (join base reference).getD reference

def sign (upstream : List Char) : List Char :=
  Base64.encode (claims upstream) ++ '.' :: Base64.encode (mac (claims upstream))

/-- The signed URL for a reference in a manifest. -/
def proxied (base proxyPrefix : List Char) (owner : Option Owner) (reference : List Char) :
    List Char :=
  proxyPrefix ++ "?u=".toList ++ sign claims mac (resolve join base reference) ++ ownerQuery owner

/-- **`rewrite_manifest`** -/
def rewriteManifest (manifest base proxyPrefix : List Char) (owner : Option Owner) : List Char :=
  Words.join '\n' ((manifest.splitOn '\n').map fun line =>
    rewriteLine (proxied join claims mac base proxyPrefix owner) (stripReturn line))

end code

/-! ### What is asked for -/

/-- **A line with every reference replaced**: an empty line as it is, a tag with its values
replaced, whatever is between their quotes, and any other line is a reference. -/
def proxiedLine (rewritten : List Char → List Char) (line : List Char) : List Char :=
  if line = [] then []
  else if line.head? = some '#' then (pieces line).flatMap (Piece.put rewritten)
  else rewritten line

/-- **The manifest has the signed URLs for its references and nothing else changes**, line by
line. -/
def Rewritten (join : List Char → List Char → Option (List Char))
    (claims : List Char → List UInt8) (mac : List UInt8 → List UInt8) (manifest base : List Char)
    (owner : Option Owner) : Prop :=
  (rewriteManifest join claims mac manifest base SEGMENT_PATH owner).splitOn '\n' =
    (manifest.splitOn '\n').map fun line =>
      proxiedLine (proxied join claims mac base SEGMENT_PATH owner) (stripReturn line)

/-- A tag whose values are ones that the pattern takes. -/
def PlainTag (line : List Char) : Prop :=
  line.head? = some '#' → ∀ q v, .attr q v ∈ pieces line → Plain v

/-! ### The pattern -/

section tags

variable {f : List Char → List Char} {s out v : List Char} {prev : Option Char} {q : Char}

theorem puts_rewritten (f : List Char → List Char) : Puts uriAttr (replaceUri f) f where
  matchAt_iff {prev s p} := by
    refine matchAt_iff_of_ways ?_ ?_
    · rintro ⟨prev', rest, groups⟩ h
      rcases List.mem_append.mp h with h | h
      all_goals
        obtain ⟨p₁, hword, h⟩ := mem_run_cat.mp h
        obtain ⟨hs, -, hgroups⟩ := mem_run_literal.mp hword
        obtain ⟨w, hw, hrest, rfl, rfl⟩ := mem_run_quoted h
      · exact ⟨'"', w, rest, hs.trans (congrArg _ hrest), rfl, hw, by rw [hgroups]; rfl⟩
      · exact ⟨'\'', w, rest, hs.trans (congrArg _ hrest), rfl, hw, by rw [hgroups]; rfl⟩
    · rintro q w rest hq hw rfl
      have hword : ⟨lastOr prev uriText, q :: (w ++ q :: rest), []⟩ ∈
          run (literal uriText) ⟨prev, uriText ++ q :: (w ++ q :: rest), []⟩ :=
        mem_run_literal.mpr ⟨rfl, rfl, rfl⟩
      rcases isQuote_iff.mp hq with rfl | rfl
      · obtain ⟨p', hp'⟩ := exists_mem_run_quoted (n := 1)
          (p := ⟨lastOr prev uriText, '"' :: (w ++ '"' :: rest), []⟩) hw rfl
        exact ⟨p', List.mem_append_left _ (mem_run_cat.mpr ⟨_, hword, hp'⟩)⟩
      · obtain ⟨p', hp'⟩ := exists_mem_run_quoted (n := 2)
          (p := ⟨lastOr prev uriText, '\'' :: (w ++ '\'' :: rest), []⟩) hw rfl
        exact ⟨p', List.mem_append_right _ (mem_run_cat.mpr ⟨_, hword, hp'⟩)⟩
  put _ _ _ hq := by
    rcases isQuote_iff.mp hq with rfl | rfl
    · rfl
    · rfl

theorem cut_quote_inj {a b y z : List Char} {d e : Char} (h : a ++ d :: y = b ++ e :: z)
    (ha : ∀ c ∈ a, isQuote c = false) (hd : isQuote d = true) (hb : ∀ c ∈ b, isQuote c = false)
    (he : isQuote e = true) : a = b ∧ d = e ∧ y = z := by
  induction a generalizing b with
  | nil =>
    rcases b with _ | ⟨c, b⟩
    · exact ⟨rfl, List.cons.inj h⟩
    · obtain ⟨rfl, -⟩ := List.cons.inj h
      exact absurd hd (Bool.eq_false_iff.mp (hb d List.mem_cons_self))
  | cons c a ih =>
    rcases b with _ | ⟨c', b⟩
    · obtain ⟨rfl, -⟩ := List.cons.inj h
      exact absurd he (Bool.eq_false_iff.mp (ha c List.mem_cons_self))
    · obtain ⟨rfl, htail⟩ := List.cons.inj h
      obtain ⟨rfl, hde, hyz⟩ := ih (b := b) htail (fun c hc => ha c (List.mem_cons_of_mem _ hc))
        (fun c hc => hb c (List.mem_cons_of_mem _ hc))
      exact ⟨rfl, hde, hyz⟩

theorem isQuote_uriText : ∀ c ∈ uriText, isQuote c = false := by
  intro c hc
  by_contra h
  exact notMem_uriText_of_isQuote (Bool.not_eq_false _ ▸ h) hc

/-- **The pattern changes nothing before the first quote**, which stays. -/
theorem first_quote (h : Replaced uriAttr (replaceUri f) prev s out) {a y : List Char} {d : Char}
    (hs : s = a ++ d :: y) (ha : ∀ c ∈ a, isQuote c = false) (hd : isQuote d = true) :
    ∃ z, out = a ++ d :: z := by
  induction h generalizing a with
  | nil => exact absurd hs.symm (List.append_ne_nil_of_right_ne_nil _ (List.cons_ne_nil _ _))
  | @keep prev c s out hnone hrest ih =>
    rcases a with _ | ⟨b, a⟩
    · obtain ⟨rfl, -⟩ := List.cons.inj hs
      exact ⟨out, rfl⟩
    · obtain ⟨rfl, htail⟩ := List.cons.inj hs
      obtain ⟨z, rfl⟩ := ih htail fun c hc => ha c (List.mem_cons_of_mem _ hc)
      exact ⟨z, rfl⟩
  | @hit prev m rest out p hnil hmatch hp hrest ih =>
    -- the match itself has its first quote after `URI=`
    obtain ⟨q, w, hm, hq, -, hput⟩ := (puts_rewritten f).exists_of_match hmatch hp
    have htext : uriText ++ q :: (w ++ [q] ++ rest) = a ++ d :: y := by
      rw [← hs, hm]
      simp
    obtain ⟨rfl, rfl, -⟩ := cut_quote_inj htext isQuote_uriText hq ha hd
    exact ⟨f w ++ [q] ++ out, by rw [hput]; simp⟩

/-- A match begins with a `U`. -/
theorem replaced_of_ne {c : Char} (hc : c ≠ 'U')
    (h : Replaced uriAttr (replaceUri f) prev (c :: s) out) :
    ∃ out', out = c :: out' ∧ Replaced uriAttr (replaceUri f) (some c) s out' :=
  (puts_rewritten f).replaced_char h fun _ _ _ _ _ heq => hc (List.cons.inj heq).1

theorem kept_attr (hq : isQuote q = true) (hqv : q ∉ v) (hv : ¬ Plain v)
    (h : Replaced uriAttr (replaceUri f) prev (uriText ++ q :: (v ++ q :: s)) out) :
    ∃ prev' out', out = uriText ++ q :: out' ∧
      Replaced uriAttr (replaceUri f) prev' (v ++ q :: s) out' := by
  have hne : q ≠ 'U' := by
    rintro rfl
    exact absurd hq (by decide)
  obtain ⟨out₁, rfl, h₁⟩ := (puts_rewritten f).replaced_char (c := 'U') h
    fun q' w rest hq' hw heq => by
      obtain ⟨rfl, htail⟩ := List.cons.inj (@List.append_cancel_left _ uriText _ _ heq)
      obtain ⟨rfl, -⟩ := upto_inj hqv (hw.notMem hq') htail
      exact hv hw
  obtain ⟨out₂, rfl, h₂⟩ := replaced_of_ne (by decide) h₁
  obtain ⟨out₃, rfl, h₃⟩ := replaced_of_ne (by decide) h₂
  obtain ⟨out₄, rfl, h₄⟩ := replaced_of_ne (by decide) h₃
  obtain ⟨out₅, rfl, h₅⟩ := replaced_of_ne hne h₄
  exact ⟨_, out₅, rfl, h₅⟩

structure Unquoted (f : List Char → List Char) : Prop where
  ne_nil : ∀ v, f v ≠ []
  isQuote_eq : ∀ v, ∀ c ∈ f v, isQuote c = false
  newline : ∀ v, '\n' ∉ f v

/-- **A value that is replaced is one that the pattern takes**: of another, the text up to its first
quote is left. -/
theorem plain_of_replaced_attr (hf : Unquoted f) (hq : isQuote q = true) (hqv : q ∉ v)
    (h : Replaced uriAttr (replaceUri f) prev (uriText ++ q :: (v ++ q :: s))
      (uriText ++ q :: (f v ++ q :: out))) : Plain v := by
  by_contra hv
  obtain ⟨prev', out', hout, htail⟩ := kept_attr hq hqv hv h
  obtain rfl := (List.cons.inj (List.append_cancel_left hout)).2
  rcases hfind : v.find? isQuote with _ | d
  · -- the value is empty
    have hquotes : ∀ c ∈ v, isQuote c = false :=
      fun c hc => Bool.eq_false_iff.mpr (List.find?_eq_none.mp hfind c hc)
    obtain rfl : v = [] := by
      by_contra hne
      exact hv ⟨hne, hquotes⟩
    obtain ⟨z, hz⟩ := first_quote (a := []) htail rfl (by simp) hq
    exact hf.ne_nil [] (cut_quote_inj hz (hf.isQuote_eq []) hq (by simp) hq).1
  · -- the value has a quote of the other kind
    obtain ⟨hd, a, y, rfl, ha⟩ := List.find?_eq_some_iff_append.mp hfind
    have ha' : ∀ c ∈ a, isQuote c = false := fun c hc => (Bool.not_eq_true' _).mp (ha c hc)
    obtain ⟨z, hz⟩ := first_quote (a := a) htail (List.append_assoc ..) ha' hd
    obtain ⟨-, rfl, -⟩ := cut_quote_inj hz (hf.isQuote_eq _) hq ha' hd
    exact hqv (List.mem_append_right _ List.mem_cons_self)

/-- **The values are all replaced** only if every one is a value that the pattern takes. -/
theorem plain_of_replaced (hf : Unquoted f)
    (h : Replaced uriAttr (replaceUri f) prev s ((pieces s).flatMap (Piece.put f))) :
    ∀ q v, .attr q v ∈ pieces s → Plain v := by
  induction s using pieces_induction generalizing prev with
  | nil => exact fun q v hv => absurd hv List.not_mem_nil
  | char c s hnone ih =>
    rw [pieces_char hnone] at h ⊢
    obtain ⟨out', hout, htail⟩ := (puts_rewritten f).replaced_char h fun q w rest hq hw hs =>
      Option.some_ne_none _ ((attrAt_eq_some_iff.mpr ⟨rest, hs, hq, hw.notMem hq⟩).symm.trans hnone)
    obtain rfl := (List.cons.inj hout).2
    exact fun q v hv => ih htail q v ((List.mem_cons.mp hv).resolve_left (by rintro ⟨⟩))
  | attr q v s hq hv ih =>
    rw [pieces_attr hq hv] at h ⊢
    have htext : (Piece.attr q v :: pieces s).flatMap (Piece.put f) =
        uriText ++ q :: (f v ++ q :: (pieces s).flatMap (Piece.put f)) := by
      rw [List.flatMap_cons, Piece.put]
      simp
    rw [htext] at h
    have hplain : Plain v := plain_of_replaced_attr hf hq hv h
    obtain ⟨prev', out', hout, htail⟩ := (puts_rewritten f).replaced_attr hq hplain h
    obtain rfl := (List.cons.inj (List.append_cancel_left (List.cons.inj
      (List.append_cancel_left hout)).2)).2
    rintro q' v' hmem
    rcases List.mem_cons.mp hmem with heq | hmem
    · obtain ⟨rfl, rfl⟩ := Piece.attr.inj heq
      exact hplain
    · exact ih htail q' v' hmem

end tags

/-! ### Lines -/

section lines

variable {f : List Char → List Char} {line : List Char}

/-- **What becomes of a tag.** -/
theorem replaced_rewriteLine (htag : line.head? = some '#') :
    Replaced uriAttr (replaceUri f) none line (rewriteLine f line) := by
  have hreplaced : Replaced uriAttr (replaceUri f) none line
      (replaceAll uriAttr (replaceUri f) line) :=
    replaced_replaceFrom _ (fun _ _ _ hp => (puts_rewritten f).rest_ne hp) none line
  by_cases hmatch : isMatch uriAttr line = true
  · rwa [rewriteLine, if_pos (by rw [decide_eq_true htag, hmatch]; rfl)]
  · -- without a match there is nothing to replace
    have hsame := hreplaced.eq_of_allAt (isMatch_eq_false_iff.mp (Bool.eq_false_iff.mpr hmatch))
    rw [hsame] at hreplaced
    rwa [rewriteLine, if_neg (by rw [Bool.eq_false_iff.mpr hmatch, Bool.and_false]; simp),
      if_pos (by rw [decide_eq_true htag, Bool.or_true])]

theorem rewriteLine_reference (hne : line ≠ []) (htag : line.head? ≠ some '#') :
    rewriteLine f line = f line := by
  rw [rewriteLine, decide_eq_false htag, List.isEmpty_eq_false_iff.mpr hne]
  rfl

theorem proxiedLine_tag (htag : line.head? = some '#') :
    proxiedLine f line = (pieces line).flatMap (Piece.put f) := by
  have hne : line ≠ [] := List.ne_nil_of_mem (List.mem_of_head? htag)
  rw [proxiedLine, if_neg hne, if_pos htag]

/-- **When a line is rewritten as asked for.** -/
theorem rewriteLine_eq_iff (hf : Unquoted f) :
    rewriteLine f line = proxiedLine f line ↔ PlainTag line := by
  by_cases htag : line.head? = some '#'
  · rw [proxiedLine_tag htag]
    constructor
    · intro h _
      have hreplaced : Replaced uriAttr (replaceUri f) none line (rewriteLine f line) :=
        replaced_rewriteLine htag
      rw [h] at hreplaced
      exact plain_of_replaced hf hreplaced
    · intro h
      refine (puts_rewritten f).text_of_replaced (fun q v hv => ⟨h htag q v hv, rfl⟩)
        (replaced_rewriteLine htag)
  · refine iff_of_true ?_ fun h => absurd h htag
    by_cases hne : line = []
    · rw [hne]
      rfl
    · rw [rewriteLine_reference hne htag, proxiedLine, if_neg hne, if_neg htag]

/-- **A line stays one line.** -/
theorem newline_rewriteLine (hf : Unquoted f) (hline : '\n' ∉ line) :
    '\n' ∉ rewriteLine f line := by
  by_cases htag : line.head? = some '#'
  · exact (puts_rewritten f).newline (fun v _ => hf.newline v) (replaced_rewriteLine htag) hline
  · by_cases hne : line = []
    · rw [hne]
      exact List.not_mem_nil
    · rw [rewriteLine_reference hne htag]
      exact hf.newline line

end lines

/-! ### What a reference is replaced by -/

section proxied

variable (join : List Char → List Char → Option (List Char)) (claims : List Char → List UInt8)
  (mac : List UInt8 → List UInt8) (base : List Char) (owner : Option Owner)

def ofUrl (c : Char) : Bool := !isQuote c && c ≠ '\n'

theorem ofUrl_digit (n : ℕ) : ofUrl (Base64.digit n) = true :=
  Base64.forall_digit (P := fun c => ofUrl c = true) (by decide) n

theorem ofUrl_word {c : Char} (h : (c.isAlphanum || c = '_' || c = '-') = true) :
    ofUrl c = true := by
  by_contra hc
  have hcases : isQuote c = true ∨ c = '\n' := by
    simpa [ofUrl, Classical.or_iff_not_imp_left] using hc
  rcases hcases with hquote | rfl
  · rcases isQuote_iff.mp hquote with rfl | rfl
    all_goals exact absurd h (by decide)
  · exact absurd h (by decide)

theorem ofUrl_ownerQuery : ∀ c ∈ ownerQuery owner, ofUrl c = true := by
  rcases owner with _ | ⟨kind, id, hid⟩
  · exact fun c hc => absurd hc List.not_mem_nil
  · intro c hc
    have hkind : (kind.text.all ofUrl) = true := by cases kind <;> decide
    have hword : id.all (fun c => c.isAlphanum || c = '_' || c = '-') = true :=
      (Bool.and_eq_true_iff.mp hid).2
    rw [ownerQuery, List.mem_append, List.mem_append, List.mem_append] at hc
    rcases hc with ((hc | hc) | hc) | hc
    · exact List.all_eq_true.mp (by decide : ("&ok=".toList.all ofUrl) = true) c hc
    · exact List.all_eq_true.mp hkind c hc
    · exact List.all_eq_true.mp (by decide : ("&oid=".toList.all ofUrl) = true) c hc
    · exact ofUrl_word (List.all_eq_true.mp hword c hc)

theorem ofUrl_sign (upstream : List Char) : ∀ c ∈ sign claims mac upstream, ofUrl c = true := by
  intro c hc
  have hencode : ∀ bytes, ∀ c ∈ Base64.encode bytes, ofUrl c = true :=
    Base64.forall_mem_encode (P := fun c => ofUrl c = true) ofUrl_digit
  rw [sign, List.mem_append, List.mem_cons] at hc
  rcases hc with hc | rfl | hc
  · exact hencode _ c hc
  · decide
  · exact hencode _ c hc

/-- **A signed URL has no quotes and is on one line.** -/
theorem unquoted_proxied : Unquoted (proxied join claims mac base SEGMENT_PATH owner) := by
  have hurl : ∀ v, ∀ c ∈ proxied join claims mac base SEGMENT_PATH owner v, ofUrl c = true := by
    intro v c hc
    rw [proxied, List.mem_append, List.mem_append] at hc
    rcases hc with (hc | hc) | hc
    · exact List.all_eq_true.mp
        (by decide : ((SEGMENT_PATH ++ "?u=".toList).all ofUrl) = true) c hc
    · exact ofUrl_sign claims mac _ c hc
    · exact ofUrl_ownerQuery owner c hc
  refine ⟨fun v h => ?_, fun v c hc => ?_, fun v hv => ?_⟩
  · have hhead : (proxied join claims mac base SEGMENT_PATH owner v).head? = some '/' := rfl
    rw [h] at hhead
    cases hhead
  · exact (Bool.not_eq_true' _).mp (Bool.and_eq_true_iff.mp (hurl v c hc)).1
  · exact absurd (hurl v _ hv) (by decide)

end proxied

/-! ### The manifest -/

section manifest

variable (join : List Char → List Char → Option (List Char)) (claims : List Char → List UInt8)
  (mac : List UInt8 → List UInt8)

theorem newline_stripReturn {line : List Char} (h : '\n' ∉ line) : '\n' ∉ stripReturn line := by
  rw [stripReturn]
  split
  · exact fun hmem => h (List.mem_of_mem_dropLast hmem)
  · exact h

/-- **The lines of the result are those of the manifest**, each rewritten. -/
theorem splitOn_rewriteManifest (manifest base : List Char) (owner : Option Owner) :
    (rewriteManifest join claims mac manifest base SEGMENT_PATH owner).splitOn '\n' =
      (manifest.splitOn '\n').map fun line =>
        rewriteLine (proxied join claims mac base SEGMENT_PATH owner) (stripReturn line) := by
  refine List.splitOn_intercalate '\n' (fun out hout => ?_)
    (List.map_eq_nil_iff.not.mpr (List.splitOn_ne_nil _ _))
  obtain ⟨line, hline, rfl⟩ := List.mem_map.mp hout
  exact newline_rewriteLine (unquoted_proxied join claims mac base owner)
    (newline_stripReturn (Words.notMem_of_mem_splitOn hline))

/-- **When no reference of a manifest is left as it was**: if each quoted value of a tag is one that
the pattern takes, and only then. -/
theorem rewritten_iff (manifest base : List Char) (owner : Option Owner) :
    Rewritten join claims mac manifest base owner ↔
      ∀ line ∈ manifest.splitOn '\n', PlainTag (stripReturn line) := by
  rw [Rewritten, splitOn_rewriteManifest, List.map_inj_left]
  exact forall₂_congr fun line _ =>
    rewriteLine_eq_iff (unquoted_proxied join claims mac base owner)

end manifest

def apostropheKey : List Char := "http://u:p@tv.example/it's.key".toList

def apostropheLine : List Char :=
  "#EXT-X-KEY:METHOD=AES-128,URI=\"".toList ++ apostropheKey ++ ['"']

/-- **A value with an apostrophe in its double quotes goes to the client**, with the name and the
password of the account in it, whatever is signed. -/
theorem not_rewritten_credentials :
    ¬ ∃ claims mac, Rewritten (fun _ reference => some reference) claims mac
      ("#EXTM3U\n".toList ++ apostropheLine ++ "\nseg.ts".toList)
      "http://tv.example/live.m3u8".toList none := by
  rintro ⟨claims, mac, h⟩
  rw [Rewritten, splitOn_rewriteManifest, List.map_inj_left] at h
  have hline : (("#EXTM3U\n".toList ++ apostropheLine ++ "\nseg.ts".toList).splitOn '\n')[1]? =
      some apostropheLine := by rfl
  have hvalue : (pieces (stripReturn apostropheLine))[26]? = some (.attr '"' apostropheKey) := by
    rfl
  have htag : PlainTag (stripReturn apostropheLine) :=
    (rewriteLine_eq_iff (unquoted_proxied ..)).mp (h _ (List.mem_of_getElem? hline))
  have hplain : Plain apostropheKey :=
    htag (by rfl) _ _ (List.mem_of_getElem? hvalue)
  have hquote : apostropheKey[24]? = some '\'' := by rfl
  exact absurd (hplain.2 _ (List.mem_of_getElem? hquote)) (by decide)

end EmeraldExchange.Iptv.Hls
