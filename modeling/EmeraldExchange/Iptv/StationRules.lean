import Mathlib.Data.List.Sort
import EmeraldExchange.Iptv.EpgResolve
import EmeraldExchange.Lib.Regex
import EmeraldExchange.Lib.Words

/-!
# How names and identifiers are read

The regular expressions and the tests of `crates/iptv/src/epg_resolve.rs`: what
`resolveEpgId` makes of the name of a channel and of an identifier of the
feed. A name gives a key to compare by, a network, a callsign and a city; an identifier gives a
stem, a country and perhaps a callsign; `rejects` says that the two cannot be
of one station. Put together they are the `Rules` of the source
(`stationRules`).

With them, this file shows where the answer of the resolver comes from
(`Origin`). Every tier but the last refusal answers an identifier that has
programmes and that the station does not reject, and a name that several identifiers share answers
for a US stream only, and only the one US identifier among them.
-/

namespace EmeraldExchange.Iptv

open Regex

/-! ### Expressions -/

/-- `[A-Za-z0-9_]` -/
def wordChar (c : Char) : Bool := c.isAlphanum || c = '_'

def anyCase (w : String) : Regex Char := wordBy Char.toLower (w.toList.map Char.toLower)

def exact (w : String) : Regex Char := literal w.toList

/-- `NETWORKS`: `cnbc` leads so that it is never read as `nbc`. -/
def networks : List String :=
  ["cnbc", "abc", "cbs", "nbc", "fox", "cw", "pbs", "telemundo", "univision", "unimas", "my"]

/-- `NETS` -/
def nets : Regex Char := oneOf (networks.map exact)

/-- `[wk]` -/
def callLetter (c : Char) : Bool := c = 'w' || c = 'k'

def countryPrefix : Regex Char :=
  seq [.start, .many jsWs, .one Char.isAlpha, .one Char.isAlpha, upTo Char.isAlpha 2, .many jsWs,
    some1 fun c => c ∈ [':', '|', '–', '—', '-'], .many jsWs]

def qualityTokens : Regex Char :=
  let spaced (a b : String) := seq [anyCase a, opt (.one (· = ' ')), anyCase b]
  seq [.boundary wordChar,
    oneOf [anyCase "FHD", anyCase "UHD", anyCase "HD", anyCase "SD", anyCase "4K", anyCase "8K",
      anyCase "HEVC", spaced "H" "265", spaced "H" "264", spaced "50" "FPS", spaced "60" "FPS",
      anyCase "VIP", anyCase "RAW", anyCase "MULTI", anyCase "BACKUP", anyCase "ALT",
      anyCase "SLOW", anyCase "FAST"],
    .boundary wordChar]

def westParen : Regex Char :=
  seq [exact "(", .many jsWs, oneOf [anyCase "west", anyCase "pacific"], .many jsWs, exact ")"]

def parens : Regex Char := seq [exact "(", .many (· ≠ ')'), exact ")"]

def brackets : Regex Char := seq [exact "[", .many (· ≠ ']'), exact "]"]

def nonAlnum : Regex Char := some1 fun c => !c.isAlphanum

def networkWord : Regex Char :=
  seq [.start, nets, opt (seq [exact "net", opt (exact "work")]), opt (exact "tv"), .stop]

def idNetwork : Regex Char := seq [.start, .group 1 nets]

/-- A bare network identifier is one market's schedule or a placeholder. -/
def bareNetwork : Regex Char :=
  seq [.start, nets, opt (exact "tv"), .many Char.isDigit, .stop]

def idCallsign : Regex Char :=
  seq [.start, opt nets, .many Char.isDigit,
    .group 1 (seq [.one callLetter, .one Char.isLower, .one Char.isLower]),
    .group 2 (upTo Char.isLower 1)]

def onlyCallsign : Regex Char :=
  seq [.start, .one callLetter, .one Char.isLower, .one Char.isLower, upTo Char.isLower 1,
    opt (oneOf [exact "dt", exact "ld", exact "cd"]), .many Char.isDigit, .stop]

def idLead : Regex Char := seq [.start, opt nets, .many Char.isDigit]

def idPrefixTag : Regex Char := seq [.start, brackets]

/-- `[a-z]{2,3}` -/
def shortWord : Regex Char := seq [.one Char.isLower, .one Char.isLower, upTo Char.isLower 1]

def locals : Regex Char := seq [exact "_locals", .many Char.isDigit]

def idCountrySuffix : Regex Char :=
  seq [exact ".", shortWord,
    opt (oneOf [.one Char.isDigit, locals, seq [exact ".plus", .one Char.isDigit]]), .stop]

def idNonAlnum : Regex Char := some1 fun c => !(c.isLower || c.isDigit)

def country : Regex Char :=
  seq [exact ".", .group 1 shortWord, opt (oneOf [.one Char.isDigit, locals]), .stop]

def shortSuffix : Regex Char := seq [exact ".", shortWord, .stop]

def callsignParen : Regex Char :=
  seq [exact "(",
    .group 1 (seq [.one fun c => c = 'W' || c = 'K', .one Char.isUpper, .one Char.isUpper,
      upTo Char.isUpper 1]),
    opt (seq [exact "-", some1 fun c => c.isUpper || c.isDigit]), exact ")"]

def nameCallsign : Regex Char :=
  seq [.boundary wordChar, .one fun c => c = 'W' || c = 'K', .one Char.isUpper,
    .one Char.isUpper, upTo Char.isUpper 1, .boundary wordChar]

def subchannel : Regex Char :=
  seq [exact "-", .one Char.isLower, .one Char.isLower, .one Char.isDigit]

def afterCallsign : Regex Char :=
  seq [.start, oneOf [.one Char.isDigit, exact "dt", exact "ld", exact "cd", exact "tv"]]

def digits : Regex Char := some1 Char.isDigit

def usName : Regex Char :=
  seq [.start, .many (!wordChar ·), anyCase "us", opt (anyCase "a"), .boundary wordChar]

def westName : Regex Char :=
  seq [.boundary wordChar, oneOf [anyCase "west", anyCase "pacific"], .boundary wordChar]

def cineboxName : Regex Char :=
  seq [.start, .many (!wordChar ·), anyCase "cinebox", .boundary wordChar]

/-! ### Names -/

/-- A text without the word it begins with, in either case; the word is in lower case. -/
def stripAnyCase (w : List Char) (s : List Char) : Option (List Char) :=
  if (s.take w.length).map Char.toLower = w then some (s.drop w.length) else none

/-- `BARE_COUNTRIES`, in lower case. -/
def bareCountries : List String :=
  ["us", "usa", "uk", "ca", "au", "nz", "ie", "de", "fr", "es", "it", "pt", "nl", "se", "no",
    "dk", "fi", "pl", "br", "mx", "ar", "in", "za"]

/-- A bare country code is dropped with the space after it, unless `network` follows: "USA
Network" is the brand. -/
def stripCountryCode (s : List Char) : List Char :=
  let rest := s.dropWhile jsWs
  let stripped := bareCountries.findSome? fun code =>
    (stripAnyCase code.toList rest).bind fun after =>
      if after.head?.any jsWs then
        let word := after.dropWhile jsWs
        if (stripAnyCase "network".toList word).isSome then none else some word
      else none
  stripped.getD s

/-- **`normalize_channel_name`**: the key a name is compared by. -/
def normalizeName (s : List Char) : Option (List Char) :=
  let blank := fun _ _ => [' ']
  let v := replaceFirst countryPrefix [] s
  let v := replaceAll qualityTokens blank v
  let v := stripCountryCode v
  let v := replaceAll westParen (fun _ _ => " west ".toList) v
  let v := replaceAll parens blank v
  let v := replaceAll brackets blank v
  let v := (replaceAll nonAlnum (fun _ _ => []) v).map Char.toLower
  if s = [] then none else if 3 ≤ v.length then some v else none

/-- The network a text begins with as a word of its own, with what may stand for the rest of
its name. -/
def branded (s : List Char) (net : String) : Bool :=
  (stripAnyCase net.toList s).any fun rest =>
    ["network", "net", ""].any fun suffix =>
      (stripAnyCase suffix.toList rest).any fun rest =>
        ["tv", ""].any fun tv =>
          (stripAnyCase tv.toList rest).any fun rest => !rest.head?.any Char.isAlpha

/-- `name_network`, from a place on. -/
def nameNetworkFrom : Option Char → List Char → Option String
  | _, [] => none
  | prev, c :: s =>
    (if prev.any Char.isAlpha then none else networks.find? (branded (c :: s))).or
      (nameNetworkFrom (some c) s)

def nameNetwork (name : List Char) : Option String := nameNetworkFrom none name

/-- `contains` -/
def containsText (w s : List Char) : Bool := s.tails.any w.isPrefixOf

/-! ### Identifiers -/

/-- An identifier without its country suffix: `abc.(kgun).tucson,.az.us` is `abckguntucsonaz`. -/
def idStem (id : List Char) : List Char :=
  let s := replaceFirst idPrefixTag [] id
  let s := replaceFirst idCountrySuffix [] s
  replaceAll idNonAlnum (fun _ _ => []) s

def countryOf (id : List Char) : Option (List Char) :=
  (Regex.find country none id).bind fun m => m.2.2.group 1

def endsWithCoast (id : List Char) : Bool :=
  let last := id.reverse.takeWhile (· ≠ '.')
  let s := if '.' ∈ id ∧ last ≠ [] then id.take (id.length - (last.length + 1)) else id
  let s := s.reverse.dropWhile (!wordChar ·)
  let ends (w : String) (r : List Char) := w.toList.reverse.isPrefixOf r
  ends "pacific" s ||
    ends "west" s && !(ends "mid" (s.drop 4) || ends "north" (s.drop 4) || ends "south" (s.drop 4))

/-! ### Stations -/

/-- `str::to_lowercase`; see `Words.toLowercase` for the characters left alone. -/
def lowercase (s : List Char) : List Char := Words.toLowercase s

/-- Lists of characters are compared as characters are. -/
local instance lawfulBEqChars : LawfulBEq (List Char) := List.instLawfulBEq

/-- The words of a name that say which city its station is in. -/
def cityWords (lower : List Char) (callsign : Option (List Char)) : List (List Char) :=
  (Words.words (!Char.isLower ·) lower).filter fun w =>
    4 ≤ w.length && some w ≠ callsign && !isMatch networkWord w &&
      w ∉ ["west", "east", "pacific", "backup", "hevc"].map String.toList

/-- **`parse_station`**. Only a name branded with a network has a callsign. -/
def parseStation (name : String) (tvg : Option String) : Station :=
  let network := nameNetwork name.toList
  let callsign := (network.bind fun _ => Regex.find callsignParen none name.toList).bind fun m =>
    (m.2.2.group 1).map lowercase
  let lower := lowercase name.toList
  { key := (normalizeName name.toList).map String.ofList
    us := isMatch usName name.toList
    west := isMatch westName name.toList
    network := network.map fun n => if "my".toList.isPrefixOf n.toList then "my" else n
    callsign := callsign.map String.ofList
    words := (cityWords lower callsign).map String.ofList
    letters := String.ofList ((replaceAll parens (fun _ _ => []) lower).filter Char.isLower)
    tvgCountry := (tvg.bind fun t => countryOf t.toList).map String.ofList }

def namesCity (st : Station) (stem : List Char) : Bool :=
  st.words.any fun w => containsText w.toList stem

/-- **`carries`**: the identifier itself names the callsign of the station, after its network and
channel number. Three letters count only if a suffix, a number or the name of the station
follows. -/
def carries (st : Station) (id : List Char) : Bool :=
  let callsign := (st.callsign.getD "").toList
  let stem := idStem id
  if !(isMatch idNetwork stem || isMatch onlyCallsign stem) || isMatch subchannel id then false
  else
    let rest := replaceFirst idLead [] stem
    if callsign.isPrefixOf rest then
      let after := rest.drop callsign.length
      callsign.length = 4 || after.isEmpty || isMatch afterCallsign after ||
        (4 ≤ after.length && containsText (after.take 4) st.letters.toList)
    else false

/-- `SUB_BRANDS` -/
def subBrands : List String := ["bet", "jr", "dodgers", "lakers", "sony"]

/-- The name and the stem are not of the same brands. -/
def otherBrand (name stem : List Char) : Bool :=
  let brand (s : List Char) := replaceAll (exact "junior") (fun _ _ => ['j', 'r']) s
  subBrands.any fun t =>
    containsText t.toList (brand name) != containsText t.toList (brand stem)

/-- Why a station with a callsign rejects an identifier. -/
def rejectsCalled (st : Station) (id stem : List Char) (foreign : Bool) : Bool :=
  if foreign then true
  else if carries st id then false
  else
    let rest := replaceFirst idLead [] stem
    if rest.head?.any callLetter && !containsText (rest.take 4) st.letters.toList then true
    else isMatch bareNetwork stem || !namesCity st stem

/-- Why a US stream without a callsign rejects an identifier. -/
def rejectsNamed (st : Station) (stKey : String) (id stem : List Char) (foreign : Bool)
    (key : Option String) : Bool :=
  let name := (key.getD stKey).toList
  if !st.words.isEmpty && isMatch bareNetwork stem then true
  else if otherBrand name stem then true
  else if foreign && (!(name.take 3).isPrefixOf stem ||
      st.tvgCountry.any fun c => some c.toList ≠ countryOf id) then true
  else
    match key.filter fun _ => st.network.isNone with
    | none => false
    | some key =>
      if st.west != endsWithCoast id then true
      else
        -- a number only the identifier has is another channel
        stem.any Char.isLower &&
          (findAll digits stem).any fun n => n ∉ findAll digits key.toList

/-- **`rejects`**: the identifier cannot be the guide of this station. -/
def rejects (st : Station) (id : String) (key : Option String) : Bool :=
  let stem := idStem id.toList
  let idNet := (Regex.find idNetwork none stem).bind fun m => m.2.2.group 1
  let otherNetwork := st.network.any fun n => idNet.any fun i => i ≠ n.toList
  if otherNetwork then true
  else
    let foreign := st.us && (countryOf id.toList).any (· ≠ ['u', 's'])
    if st.callsign.isSome then rejectsCalled st id.toList stem foreign
    else
      match st.key.filter fun _ => st.us with
      | none => false
      | some stKey => rejectsNamed st stKey id.toList stem foreign key

/-! ### The rules -/

/-- What makes one of the identifiers of a callsign better than another, the first difference
deciding: a US identifier, of the station's network, with the later schedule, the provider's own
tag, naming the city. -/
def rank (st : Station) (lastStop : Table String String) (tvg : Option String) (id : String) :
    List (List ℕ) :=
  let stem := idStem id.toList
  let last := ((lastStop.lookup id).getD "0").toList
  let flag (b : Bool) : List ℕ := [b.toNat]
  let text (s : List Char) : List ℕ := s.map Char.toNat
  let size := Nat.toDigits 10 id.utf8ByteSize
  [flag ((countryOf id.toList).getD ['u', 's'] = ['u', 's']),
    flag (st.network.any fun n => n.toList.isPrefixOf stem), text (last.take 10),
    flag (some id = tvg), flag (namesCity st stem), text last,
    text (List.replicate (3 - size.length) '0' ++ size)]

/-- The identifiers of a station, the best first, those of equal rank as they are. -/
def ranked (st : Station) (lastStop : Table String String) (tvg : Option String)
    (ids : List String) : List String :=
  ids.insertionSort fun a b => rank st lastStop tvg b ≤ rank st lastStop tvg a

/-- The callsigns at the front of an identifier: three letters may be the start of four, and both
are listed. -/
def idCallsigns (id : List Char) : List (List Char) :=
  let stem := idStem id
  match Regex.find idCallsign none stem with
  | none => []
  | some (_, _, q) =>
    if isMatch idNetwork stem || isMatch onlyCallsign stem then
      let three := (q.group 1).getD []
      let fourth := (q.group 2).getD []
      three :: (if fourth = [] then [] else [three ++ fourth])
    else []

/-- `RENAMES`: channels whose identifier goes by a newer or fuller name. -/
def renames : List (String × String) :=
  [("hbohits", "hbo2"), ("newsy", "scrippsnews"), ("showtimebet", "shoxbet"),
    ("hallmarkdrama", "hallmarkfamily"), ("disneyjr", "disneyjunior"),
    ("sonymovies", "sonymoviechannel"), ("sportsnetladodgers", "sportsnetla"),
    ("sportsnetdodgers", "sportsnetla")]

/-- A name without a last `east`, where enough of it is left. -/
def withoutEast (key : List Char) : List Char :=
  if "east".toList.isSuffixOf key && 3 ≤ key.length - 4 then key.take (key.length - 4) else key

/-- **The rules of the source.** -/
def stationRules : Rules where
  normalizeChannelName s := (normalizeName s.toList).map String.ofList
  nameCallsigns s := (findAll nameCallsign s.toList).map fun cs => String.ofList (lowercase cs)
  idCallsigns id := (idCallsigns id.toList).map String.ofList
  idName id := String.ofList (replaceFirst shortSuffix [] id.toList)
  isUs name := isMatch usName name.toList
  isUsId id := countryOf id.toList = some ['u', 's']
  cinebox name := isMatch cineboxName name.toList
  parseStation := parseStation
  rejects := rejects
  namesCity st id := namesCity st (idStem id.toList)
  startsLike id key := (key.toList.take 3).isPrefixOf (idStem id.toList)
  renamed k := String.ofList (renames.foldl
    (fun acc r => replaceFirst (exact r.1) r.2.toList acc) k.toList)
  withoutEast key := String.ofList (withoutEast key.toList)
  ranked := ranked
  perm_ranked _ _ _ ids := List.perm_insertionSort _ ids

/-! ### Where an answer comes from -/

section resolve

variable (v : Values) (defs : List ChannelDef) (channels : List CatalogChannel)
  (feedWithEpg : Finset String) (lastStop : Table String String) (channel : CatalogChannel)

/-- **The resolver never points at a foreign or refused guide.** For every channel and every pair
of indexes over the same identifiers with programmes, the answer is nothing; or the empty
identifier, and then the provider's own tag is refused; or an identifier that has programmes and
that the station does not reject, in the tier it comes from. And a name that several identifiers
share is answered for a US stream only, by the only US identifier among them. -/
theorem resolveEpgId_origin :
    let index := indexPair v stationRules defs channels feedWithEpg lastStop
    let tvg := epgId v channel.epgChannelId
    let st := parseStation channel.name tvg
    (∀ id, resolveEpgId v stationRules channel index = some id →
      id = "" ∧ (∃ t, tvg = some t ∧ rejects st t none = true) ∨
      id ≠ "" ∧ id ∈ feedWithEpg ∧ Origin stationRules index st tvg id ∧
        (rejects st id none = false ∨ ∃ k, nameHit st index k = some id ∧
          rejects st id (some k) = false)) ∧
    ∀ k, 1 < (nameIds v stationRules defs feedWithEpg k).length →
      ∀ id, nameHit st index k = some id → st.us = true ∧
        (nameIds v stationRules defs feedWithEpg k).filter
          (fun i => countryOf i.toList = some ['u', 's']) = [id] := by
  intro index tvg st
  constructor
  · rintro id hid
    rcases origin_of_resolveEpgId hid with horigin | hempty
    · refine .inr ⟨horigin.ne_empty, horigin.mem_feedWithEpg sound_indexPair, horigin, ?_⟩
      rcases horigin with ⟨-, haccepted⟩ | ⟨-, -, haccepted⟩ | ⟨-, -, haccepted⟩ |
        ⟨k, hk, haccepted⟩
      · exact .inl haccepted
      · exact .inl haccepted
      · exact .inl haccepted
      · exact .inr ⟨k, hk, haccepted⟩
    · exact .inl hempty
  · rintro k hmany id hid
    rcases nameHit_indexPair hid with hone | ⟨hus, -, hfilter⟩
    · rw [hone] at hmany
      exact absurd hmany (lt_irrefl 1)
    · exact ⟨hus, hfilter⟩

end resolve

/-- The tag `a.us` of a channel with programmes. -/
theorem resolveEpgId_origin_own :
    let v : Values := ⟨fun s => String.ofList (lowercase s.toList), fun _ => none⟩
    let defs : List ChannelDef := [⟨"a.us", []⟩]
    resolveEpgId v stationRules ⟨"ab", some "a.us"⟩ (indexPair v stationRules defs [] {"a.us"} ∅) =
      some "a.us" ∧ "a.us" ∈ ({"a.us"} : Finset String) := by
  intro v defs
  have hid : resolveEpgId v stationRules ⟨"ab", some "a.us"⟩
      (indexPair v stationRules defs [] {"a.us"} ∅) = some "a.us" := by
    decide +kernel
  rcases (resolveEpgId_origin v defs [] {"a.us"} ∅ ⟨"ab", some "a.us"⟩).1 "a.us" hid with
    ⟨hempty, -⟩ | ⟨-, hfeed, -⟩
  · exact absurd hempty (by decide)
  · exact ⟨hid, hfeed⟩

end EmeraldExchange.Iptv
