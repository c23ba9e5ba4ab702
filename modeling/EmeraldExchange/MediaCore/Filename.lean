import Mathlib.Data.List.Basic
import EmeraldExchange.Lib.Regex
import EmeraldExchange.Lib.Words

/-!
# What a file name says

`crates/media-core/src/filename.rs`: the name of a video file is read as a film with its year, or as
an episode of a show. Separators become spaces, everything from the first mark of quality on is
dropped, and the year of a film is the last one that has a title before it. The root a file is under
decides what it can be. A show has a key of its own, which spellings of one name share.

The tables of Unicode are third-party data, and a parameter.
-/

namespace EmeraldExchange.MediaCore

open Regex

/-- **The tables of Unicode**, as far as names are read with them. -/
structure Unicode where
  /-- `str::to_lowercase` -/
  lower : List Char → List Char
  /-- Simple case folding, in expressions without case. -/
  fold : Char → Char
  /-- `\d` -/
  digit : Char → Bool
  /-- `\w` -/
  word : Char → Bool
  /-- `char::is_alphanumeric` -/
  alphanumeric : Char → Bool
  /-- The canonical decomposition. -/
  nfd : List Char → List Char
  combining : Char → Bool

/-- The tables, as far as they are about ASCII. -/
def Unicode.ascii : Unicode where
  lower := List.map Char.toLower
  fold := Char.toLower
  digit := Char.isDigit
  word c := c.isAlphanum || c = '_'
  alphanumeric := Char.isAlphanum
  nfd := id
  combining _ := false

/-- `char::is_whitespace` -/
def isWhitespace (c : Char) : Bool :=
  ('\t' ≤ c && c ≤ '\r') || ('\u2000' ≤ c && c ≤ '\u200a') ||
    c ∈ [' ', '\u0085', '\u00a0', '\u1680', '\u2028', '\u2029', '\u202f', '\u205f', '\u3000']

inductive ParsedName
  | movie (title : String) (year : Option ℕ)
  | episode (show' : String) (season episode : ℕ)
  | unknown
  deriving DecidableEq

inductive RootKind
  | movies
  | shows
  | auto
  deriving DecidableEq

variable (U : Unicode)

/-! ### Expressions -/

/-- A word in any case; `w` is in lower case. -/
def caseless (w : String) : Regex Char := wordBy U.fold w.toList

/-- `[..]` in any case. -/
def caselessOne (w : String) : Regex Char := .one fun c => U.fold c ∈ w.toList

/-- `\d{m,n}` -/
def digitsUpTo (m n : ℕ) : Regex Char :=
  seq (List.replicate m (.one U.digit) ++ [upTo U.digit (n - m)])

def episodeRe : Regex Char :=
  .alt
    (seq [caseless U "s", .group 1 (digitsUpTo U 1 2), caseless U "e",
      .group 2 (digitsUpTo U 1 3)])
    (seq [.group 3 (digitsUpTo U 1 2), caseless U "x", .group 4 (digitsUpTo U 1 3)])

def reversedYearRe : Regex Char :=
  seq [literal [')'], digitsUpTo U 4 4, literal ['(']]

/-- The marks of quality, in the order they are tried. -/
def noiseTokens : List (Regex Char) :=
  let word := caseless U
  let dash := opt (literal ['-'])
  let dot := opt (literal ['.'])
  let blank := opt (.one isWhitespace)
  [seq [digitsUpTo U 3 4, caselessOne U "pi"], word "2160p", word "4k", word "uhd",
    seq [word "blu", dash, word "ray"], word "brrip", word "bdrip",
    seq [word "web", dash, word "rip"], seq [word "web", dash, word "dl"], word "webdl",
    word "hdtv", word "dvdrip", word "remux",
    seq [word "x", dot, word "26", caselessOne U "45"],
    seq [word "h", dot, word "26", caselessOne U "45"], word "hevc", word "avc", word "av1",
    word "xvid", word "divx", word "10bit",
    seq [word "true", dash, word "hd"], word "atmos", seq [word "dts", opt (seq [dash, word "hd"])],
    seq [word "dd", opt (word "p"), opt (word "5"), dot, word "1"], word "ac3",
    seq [word "e", dash, word "ac3"], word "aac", word "flac", seq [word "7", blank, word "1"],
    seq [word "5", blank, word "1"], seq [word "2", blank, word "0"],
    word "dovi", word "dv", seq [word "hdr10", opt (literal ['+'])], word "hdr", word "sdr",
    word "proper", word "repack", word "internal", word "extended", word "uncut",
    word "remastered", word "imax"]

def noiseRe : Regex Char :=
  seq [.alt .start (.one isWhitespace), oneOf (noiseTokens U), .alt (.boundary U.word) .stop]

/-! ### Cleaning -/

/-- `trim_matches` -/
def trimMatches (p : Char → Bool) (s : List Char) : List Char :=
  ((s.dropWhile p).reverse.dropWhile p).reverse

/-- `str::trim` -/
def trim (s : List Char) : List Char := trimMatches isWhitespace s

/-- `trim_end` -/
def trimEnd (s : List Char) : List Char := (s.reverse.dropWhile isWhitespace).reverse

/-- `split_whitespace().join(" ")` -/
def respace (s : List Char) : List Char := Words.join ' ' (Words.words isWhitespace s)

/-- **`clean`**: separators become spaces, and brackets at the ends are dropped. -/
def clean (text : List Char) : List Char :=
  let replaced := text.map fun c => if c ∈ ['.', '_', '-'] then ' ' else c
  trim (trimMatches (fun c => c ∈ ['(', ')', '[', ']', '{', '}']) (respace replaced))

/-- **`strip_tags`**: what stands before the first mark of quality. -/
def stripTags (cleaned : List Char) : List Char :=
  match find (noiseRe U) none (' ' :: cleaned) with
  | some (before, _, _) => trim before
  | none => trim cleaned

def digitsValue (s : List Char) : ℕ := s.foldl (fun n c => 10 * n + (c.toNat - '0'.toNat)) 0

/-- `parse::<i64>()` of some digits. -/
def parseDigits (s : List Char) : Option ℕ :=
  if s ≠ [] ∧ s.all Char.isDigit then some (digitsValue s) else none

def isYear (s : List Char) : Bool :=
  s.length = 4 && s.all Char.isDigit && 1900 ≤ digitsValue s && digitsValue s ≤ 2099

/-- **`strip_trailing_year`** -/
def stripTrailingYear (cleaned : List Char) : List Char :=
  let trimmed := trimEnd cleaned
  let last := (trimmed.reverse.takeWhile (· ≠ ' ')).reverse
  if 1 < (Words.words isWhitespace trimmed).length ∧ isYear last then
    trimEnd (trimmed.take (trimmed.length - last.length))
  else trimmed

/-- **`fold_join_key`**: without case and marks, words of letters and digits only. -/
def foldJoinKey (text : List Char) : List Char :=
  let folded := ((U.nfd (U.lower text)).filter (!U.combining ·)).flatMap fun c =>
    if c = '&' then "and".toList else [c]
  respace (folded.map fun c => if U.alphanumeric c then c else ' ')

/-- **`normalize_show_name`**: the key of a show. -/
def normalizeShowName (raw : String) : String :=
  String.ofList (foldJoinKey U (stripTrailingYear (stripTags U (U.lower (clean raw.toList)))))

/-- `strip_extension` -/
def stripExtension (name : List Char) : List Char :=
  let ext := (name.reverse.takeWhile (· ≠ '.')).reverse
  let stem := name.take (name.length - (ext.length + 1))
  if '.' ∈ name ∧ stem ≠ [] ∧ ext ≠ [] ∧ ext.length ≤ 4 ∧ ext.all Char.isAlphanum then stem
  else name

/-! ### Reading a name -/

/-- `marker_to_se` -/
def markerToSe (q : Pos Char) : Option (ℕ × ℕ) :=
  match q.group 1, q.group 2 with
  | some s, some e => do return (← parseDigits s, ← parseDigits e)
  | _, _ => do return (← parseDigits (← q.group 3), ← parseDigits (← q.group 4))

/-- **`try_episode`** -/
def tryEpisode (stem : List Char) : Option (List Char × ℕ × ℕ) := do
  let (before, _, q) ← find (episodeRe U) none stem
  let (season, episode) ← markerToSe q
  let show' := stripTags U (clean before)
  if show' = [] then none else return (show', season, episode)

/-- The last year with a title before it, from a place on: the text before the place is in reverse,
and some characters are still to be passed over. -/
def lastYear : ℕ → List Char → List Char → Option (List Char × ℕ) → Option (List Char × ℕ)
  | _, _, [], chosen => chosen
  | skip + 1, before, c :: rest, chosen => lastYear skip (c :: before) rest chosen
  | 0, before, c :: rest, chosen =>
    let run := (c :: rest).take 4
    let bounded := !before.head?.any Char.isAlphanum &&
      !((c :: rest).drop 4).head?.any Char.isAlphanum
    if bounded && run.length = 4 && run.all Char.isDigit &&
        (run.take 2 = ['1', '9'] || run.take 2 = ['2', '0']) then
      let preceding := stripTags U (clean before.reverse)
      lastYear 3 (c :: before) rest
        (if preceding ≠ [] then some (before.reverse, digitsValue run) else chosen)
    else lastYear 0 (c :: before) rest chosen

/-- **`parse_movie`** -/
def parseMovie (stem : List Char) : ParsedName :=
  let dated := (lastYear U 0 [] stem none).bind fun (before, year) =>
    let title := stripTags U (clean before)
    if title ≠ [] then some (ParsedName.movie (String.ofList title) (some year)) else none
  dated.getD <|
    let title := stripTags U (clean stem)
    if title = [] then .unknown else .movie (String.ofList title) none

/-- **`looks_reversed`**: the name says more from its end. -/
def looksReversed (stem : List Char) : Bool :=
  if isMatch (episodeRe U) stem then false
  else isMatch (episodeRe U) stem.reverse || isMatch (reversedYearRe U) stem

def episodeOf (found : List Char × ℕ × ℕ) : ParsedName :=
  .episode (String.ofList found.1) found.2.1 found.2.2

/-- **`parse_filename`** -/
def parseFilename (name : List Char) : ParsedName :=
  let stem := stripExtension name
  if looksReversed U stem then .unknown
  else ((tryEpisode U stem).map episodeOf).getD (parseMovie U stem)

def seasonWords : List String := ["season", "series", "specials"]

/-- **`show_from_parent`**: the name of the folder, or of the one above a season's. The path is
given by its components, the last one the name of the file. -/
def showFromParent (path : List String) : Option (List Char) := do
  let parent := path.dropLast
  let name ← parent.getLast?
  let cleaned := stripTags U (clean name.toList)
  let lower := U.lower cleaned
  if cleaned = [] ∨ seasonWords.any (fun w => w.toList.isPrefixOf lower) then
    let above ← parent.dropLast.getLast?
    let g := stripTags U (clean above.toList)
    if g = [] then none else some g
  else some cleaned

/-- **`classify`**: the root decides what a file can be. -/
def classify (kind : RootKind) (path : List String) (name : String) : ParsedName :=
  let stem := stripExtension name.toList
  match kind with
  | .auto => parseFilename U name.toList
  | .movies => if looksReversed U stem then .unknown else parseMovie U stem
  | .shows =>
    if looksReversed U stem then .unknown
    else
      match tryEpisode U stem with
      | some found => episodeOf found
      | none =>
        match showFromParent U path with
        | some show' => .episode (String.ofList show') 0 0
        | none => .unknown

end EmeraldExchange.MediaCore
