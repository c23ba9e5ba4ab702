import Mathlib.Algebra.Order.Field.Rat
import Mathlib.Data.List.Dedup
import EmeraldExchange.Iptv.StationRules
import EmeraldExchange.Lib.Table

/-!
# Listings and the verdicts about them

`crates/iptv/src/feed_checks.rs`: the guide identifier a stream is listed under, what a check found
out about the stream behind it, and how the schedules of two guide identifiers compare at a time
and around it. A title is folded before it is compared, and one that says nothing about the picture
is no title.

The texts of times and the classes of Unicode are third-party code
(`Formats`).
-/

namespace EmeraldExchange.Iptv.Feeds

open Regex

/-- **What times and characters are written as.** -/
structure Formats where
  /-- `iso_ms` -/
  iso : ℤ → String
  /-- `parse_from_rfc3339`, in milliseconds -/
  millis : String → Option ℤ
  /-- `to_lowercase` -/
  lower : List Char → List Char
  /-- `\s`, which `trim` drops as well -/
  space : Char → Bool
  /-- `[\p{L}\p{N}]` -/
  alnum : Char → Bool

/-! ### Tables -/

/-- A row of `channels`, as far as its guide goes. -/
structure ChannelRow where
  streamId : ℤ
  epgChannelId : Option String
  epgResolvedId : Option String
  deriving DecidableEq

/-- A row of `epg_programs`. -/
structure ProgramRow where
  channelId : String
  startUtc : String
  stopUtc : String
  title : Option String
  deriving DecidableEq

/-- What a catalog sync and a guide refresh write. -/
structure Catalog where
  channels : List ChannelRow
  programs : List ProgramRow

/-- `'match' | 'mislabeled' | 'inconclusive'` -/
inductive Verdict
  | matched
  | mislabeled
  | inconclusive
  deriving DecidableEq

/-- **A row of `channel_feed_checks`.** -/
structure FeedCheck where
  streamId : ℤ
  verdict : Verdict
  listedEpgId : Option String
  actualEpgId : Option String
  matchedStreamId : Option ℤ
  score : Option ℚ
  reason : Option String := none
  checkedAt : String := ""
  deriving DecidableEq

abbrev Checks := Table ℤ FeedCheck

/-- The reason a check records when no other stream of its listing exists. -/
def noSiblingReason : String := "no other stream of its listing to compare"

/-! ### Guide identifiers -/

/-- `NULLIF(COALESCE(epg_resolved_id, epg_channel_id), '')` -/
def ChannelRow.listedEpg (row : ChannelRow) : Option String :=
  (row.epgResolvedId.or row.epgChannelId).filter (· ≠ "")

/-- `EFFECTIVE_EPG`: the listing, unless a check of this listing found another channel. -/
def ChannelRow.effectiveEpg (checks : Checks) (row : ChannelRow) : Option String :=
  (((checks.lookup row.streamId).filter fun c =>
    c.verdict = .mislabeled ∧ c.listedEpgId.isSome ∧ c.listedEpgId = row.listedEpg).bind
      FeedCheck.actualEpgId).or row.listedEpg

def Catalog.channel (catalog : Catalog) (streamId : ℤ) : Option ChannelRow :=
  catalog.channels.find? fun row => row.streamId = streamId

/-- `listed_epg_id` -/
def listedEpgId (streamId : ℤ) (catalog : Catalog) (_ : Checks) : Option String :=
  ((catalog.channel streamId).bind ChannelRow.listedEpg).filter (· ≠ "")

/-- `effective_epg_id` -/
def effectiveEpgId (streamId : ℤ) (catalog : Catalog) (checks : Checks) : Option String :=
  ((catalog.channel streamId).bind (ChannelRow.effectiveEpg checks)).filter (· ≠ "")

variable (F : Formats)

/-- `feed_check_is_fresh`: the check is of the stream as it is listed now, and not too old. One
that compared nothing stands an hour longer than a day, so that each retry comes an hour later. -/
def feedCheckIsFresh (c : FeedCheck) (listed : Option String) (nowMs : ℤ) : Bool :=
  let hourMs := 3600000
  let comparedNothing := c.verdict = .inconclusive ∧ c.score.isNone ∧
    c.reason.any (· ≠ noSiblingReason)
  let window :=
    if comparedNothing then 25 * hourMs
    else match c.verdict with
      | .matched | .mislabeled => 24 * hourMs
      | .inconclusive => 6 * hourMs
  c.listedEpgId = listed && (F.millis c.checkedAt).any fun t => nowMs - t < window

/-- `known_carried_epg_id` -/
def knownCarriedEpgId (c : FeedCheck) (listed : Option String) : Option String :=
  if c.listedEpgId = listed then
    match c.verdict with
    | .matched => listed
    | .mislabeled => c.actualEpgId
    | .inconclusive => none
  else none

/-! ### Titles -/

/-- `PLACEHOLDER_TITLE` -/
def placeholderTitle : Regex Char :=
  let off := opt (.one fun c => c = ' ' || c = '-')
  seq [.start,
    oneOf [seq [exact "sign", opt (exact " "), exact "off"], seq [exact "off", off, exact "air"],
      exact "channel off air", exact "to be announced", exact "tba", exact "tbd",
      exact "no match today", exact "channel no longer available",
      seq [exact "next ", oneOf [exact "game", exact "match"], .boundary wordChar,
        .many (· ≠ '\n')]],
    .stop]

/-- `LIVE_PREFIX` -/
def livePrefix : Regex Char :=
  seq [.start, oneOf [exact "live", exact "new"], .many F.space, exact ":", .many F.space]

/-- `CATEGORY_TAIL` -/
def categoryTail : Regex Char :=
  seq [some1 F.space, exact "category:", .many (· ≠ '\n'), .stop]

/-- `NON_LN` -/
def nonLn : Regex Char := some1 (!F.alnum ·)

/-- `str::trim` -/
def trimmed (s : List Char) : List Char :=
  ((s.dropWhile F.space).reverse.dropWhile F.space).reverse

/-- **`norm_title`**: a title folded for comparison. -/
def normTitle (title : Option String) : Option (List Char) :=
  (title.map fun t => F.lower (trimmed F t.toList)).bind fun t =>
    if t = [] ∨ isMatch placeholderTitle t then none
    else
      let t := replaceFirst (livePrefix F) [] t
      let t := replaceFirst (categoryTail F) [] t
      let t := trimmed F (replaceAll (nonLn F) (fun _ _ => [' ']) t)
      if t = [] then none else some t

/-- **`same_programme`**: the titles are equal, or one has a subtitle that the other leaves off. -/
def sameProgramme (a b : List Char) : Bool :=
  a = b || (b ++ [' ']).isPrefixOf a || (a ++ [' ']).isPrefixOf b

/-! ### Schedules -/

/-- `Schedule::load`: the programmes of an identifier over a span. -/
def loadSchedule (id : String) (start stop : ℤ) (catalog : Catalog) : List ProgramRow :=
  catalog.programs.filter fun p =>
    p.channelId = id ∧ p.startUtc ≤ F.iso stop ∧ F.iso start < p.stopUtc

/-- The programme that starts last, the last of several. -/
def latest : List ProgramRow → Option ProgramRow
  | [] => none
  | p :: ps => (latest ps).elim (some p) fun q => if q.startUtc < p.startUtc then some p else some q

/-- `Schedule::title`: the folded title on air. -/
def titleOf (schedule : List ProgramRow) (at' : ℤ) : Option (List Char) :=
  (latest (schedule.filter fun p => p.startUtc ≤ F.iso at' ∧ F.iso at' < p.stopUtc)).bind
    fun p => normTitle F p.title

/-- `title_at` -/
def titleAt (id : String) (at' : ℤ) (catalog : Catalog) : Option (List Char) :=
  titleOf F (loadSchedule F id at' at' catalog) at'

/-- **`listings_differ`**, of the titles that two queries answered: both name a programme, and not
the same one. -/
def titlesDiffer (a b : Option (List Char)) : Bool :=
  a.any fun ta => b.any fun tb => !sameProgramme ta tb

/-- `Agreement` -/
structure Agreement where
  share : ℚ
  points : ℕ
  titles : ℕ

/-- **`schedule_agreement`**, of the two schedules, at every half hour. -/
def scheduleAgreement (a b : List ProgramRow) (at' hours : ℤ) : Agreement :=
  let hourMs := 3600000
  let points := (List.range ((2 * hours) * 2 + 1).toNat).filterMap fun i =>
    let t := at' - hours * hourMs + i * (30 * 60000)
    (titleOf F a t).bind fun ta => (titleOf F b t).map fun tb => (ta, tb)
  let same := points.filter fun p => sameProgramme p.1 p.2
  { share := if points = [] then 0 else (same.length : ℚ) / points.length
    points := points.length
    titles :=
      (same.map fun p => if p.1.length < p.2.length then p.1 else p.2).dedup.length }

/-- `same_schedule_epg_ids`: the schedules agree most of the time. -/
def sameSchedule (g : Agreement) : Bool := 4 ≤ g.points && 1 / 2 ≤ g.share

end EmeraldExchange.Iptv.Feeds
