import EmeraldExchange.Auth.Session
import EmeraldExchange.Lib.AutoTable
import EmeraldExchange.Lib.Civil
import EmeraldExchange.Lib.SortBy
import EmeraldExchange.Lib.TextOrder

/-!
# The episodes of podcasts

The date of an episode is stored as a text that has the local time of the feed and its offset, and
episodes are listed by these texts, the greatest first. Two texts are compared by their local times,
and only where these agree by the signs and hours of their offsets. So episodes are listed newest
first if the local times are in the order of the times themselves, and no two that are alike have
different offsets east of Greenwich (`listed_run_iff`).
-/

namespace EmeraldExchange.MediaCore.PodcastEpisodes

open Auth (whiteSpace)
open TextOrder (Field TextLt two)

/-! ### Dates -/

/-- **A date of a feed**: a local time, and its offset in minutes. A leap second is number 60. -/
structure PubDate where
  year : ℕ
  month : ℕ
  day : ℕ
  hour : ℕ
  minute : ℕ
  second : ℕ
  offset : ℤ
  month_le : month ≤ 12
  day_le : day ≤ 31
  hour_lt : hour < 24
  minute_lt : minute < 60
  second_le : second ≤ 60
  offset_lt : offset.natAbs < 24 * 60

namespace PubDate

/-- The numbers of a local time after its year. -/
def rest (d : PubDate) : List ℕ := [d.month, d.day, d.hour, d.minute, d.second]

/-- **The instant**, in half seconds, so that a leap second has one of its own. -/
def instant (d : PubDate) : ℤ :=
  2 * (86400 * Civil.day ⟨d.year, d.month, d.day⟩ + 3600 * d.hour + 60 * d.minute +
    min d.second 59 - 60 * d.offset) + (if d.second = 60 then 1 else 0)

end PubDate

/-- A year, which has a sign where it has more than four digits. -/
def yearText (y : ℕ) : List Char :=
  if y ≤ 9999 then (two (y / 100)).digits ++ (two (y % 100)).digits
  else '+' :: Decimal.text y

def offsetText (offset : ℤ) : List Char :=
  (if offset < 0 then '-' else '+') ::
    ((two (offset.natAbs / 60)).digits ++ ':' :: (two (offset.natAbs % 60)).digits)

/-- **`to_rfc3339`**, of a date without a fraction. -/
def toRfc3339 (d : PubDate) : List Char :=
  yearText d.year ++ '-' :: ((two d.month).digits ++ '-' :: ((two d.day).digits ++
    'T' :: ((two d.hour).digits ++ ':' :: ((two d.minute).digits ++ ':' ::
      ((two d.second).digits ++ offsetText d.offset)))))

/-! ### What the code does -/

/-- An item of a feed, as its elements are collected: the dates are the texts of all its
`pubDate`s. -/
structure Item where
  guid : List Char
  title : List Char
  audioUrl : List Char
  pubDates : List (List Char)
  durationSecs : Option ℤ
  description : Option (List Char)

structure FeedEpisode where
  guid : List Char
  title : List Char
  audioUrl : List Char
  publishedAt : Option (List Char)
  durationSecs : Option ℤ
  description : Option (List Char)

structure Feed where
  title : List Char
  description : Option (List Char)
  imageUrl : Option (List Char)
  episodes : List FeedEpisode

/-- **`parse_pub_date`**, with `parse_from_rfc2822`. -/
def parsePubDate (parse : List Char → Option PubDate) (raw : List Char) : Option (List Char) :=
  (parse (Auth.trimMatches whiteSpace raw)).map toRfc3339

/-- The end of an item: without an address it is skipped, and its first date counts that can be
read. -/
def Item.episode (parse : List Char → Option PubDate) (item : Item) : Option FeedEpisode :=
  if item.audioUrl = [] then none
  else some
    { guid := if item.guid = [] then item.audioUrl else item.guid
      title := if item.title = [] then "Untitled episode".toList else item.title
      audioUrl := item.audioUrl
      publishedAt := item.pubDates.findSome? (parsePubDate parse)
      durationSecs := item.durationSecs
      description := item.description }

/-- A row of `podcasts`, as far as a feed fills it. -/
structure Podcast where
  feedUrl : List Char
  title : List Char
  description : Option (List Char)
  imageUrl : Option (List Char)

/-- A row of `podcast_episodes`. -/
structure Episode extends FeedEpisode where
  podcastId : ℕ

structure Db where
  podcasts : AutoTable Podcast
  episodes : AutoTable Episode

/-- An episode that is inserted, or takes the place of the one with its identifier. -/
def storeEpisode (podcastId : ℕ) (t : AutoTable Episode) (ep : FeedEpisode) : AutoTable Episode :=
  t.upsert (fun e => e.podcastId = podcastId && e.guid = ep.guid) (fun _ => ⟨ep, podcastId⟩)
    ⟨ep, podcastId⟩

/-- **`store_feed`**, for a podcast that is there. -/
def Db.storeFeed (podcastId : ℕ) (feed : Feed) (db : Db) : Db where
  podcasts := db.podcasts.updateRow podcastId fun p =>
    { p with title := feed.title, description := feed.description, imageUrl := feed.imageUrl }
  episodes := feed.episodes.foldl (storeEpisode podcastId) db.episodes

/-- **`add_podcast`**, with the feed that was fetched. -/
def Db.addPodcast (feedUrl : List Char) (feed : Feed) (db : Db) : Db :=
  if (db.podcasts.find? fun p => p.feedUrl = feedUrl).isSome then db
  else Db.storeFeed db.podcasts.next feed
    { db with podcasts := db.podcasts.insert ⟨feedUrl, feed.title, none, none⟩ }

/-- **`refresh_podcast`**, with the feed that was fetched. -/
def Db.refreshPodcast (podcastId : ℕ) (feed : Feed) (db : Db) : Db :=
  if (db.podcasts.get? podcastId).isSome then db.storeFeed podcastId feed else db

/-- **`delete_podcast`**, which takes its episodes along. -/
def Db.deletePodcast (podcastId : ℕ) (db : Db) : Db where
  podcasts := db.podcasts.remove fun p => p.1 = podcastId
  episodes := db.episodes.remove fun e => e.2.podcastId = podcastId

/-- `paginate` -/
def paginate (limit offset : Option ℤ) : ℤ × ℤ :=
  (max 1 (min (limit.getD 50) 200), max (offset.getD 0) 0)

/-- `ORDER BY published_at IS NULL, published_at DESC` -/
def compareEpisodes (a b : ℕ × Episode) : Ordering :=
  match a.2.publishedAt, b.2.publishedAt with
  | none, none => .eq
  | none, some _ => .gt
  | some _, none => .lt
  | some s, some t => (TextOrder.compareText s t).swap

/-- The order in which rows are read, which leaves out none and repeats none. -/
structure Scan where
  read : List (ℕ × Episode) → List (ℕ × Episode)
  perm : ∀ rows, (read rows).Perm rows

def Db.episodesOf (podcastId : ℕ) (db : Db) : List (ℕ × Episode) :=
  db.episodes.rows.filter fun e => e.2.podcastId = podcastId

/-- **`list_podcast_episodes`**: a page, and the number of episodes. -/
def Db.listPodcastEpisodes (scan : Scan) (podcastId : ℕ) (limit offset : Option ℤ) (db : Db) :
    Option (List (ℕ × Episode) × ℕ) :=
  if (db.podcasts.get? podcastId).isSome then
    let page := paginate limit offset
    some ((((SortBy.sortBy compareEpisodes (scan.read (db.episodesOf podcastId))).drop
      page.2.toNat).take page.1.toNat), (db.episodesOf podcastId).length)
  else none

/-! ### Runs -/

/-- A feed, with its items as they are collected. -/
structure Document where
  title : List Char
  description : Option (List Char)
  imageUrl : Option (List Char)
  items : List Item

def Document.feed (parse : List Char → Option PubDate) (x : Document) : Feed :=
  ⟨x.title, x.description, x.imageUrl, x.items.filterMap (Item.episode parse)⟩

inductive Op
  | add (feedUrl : List Char) (x : Document)
  | refresh (podcastId : ℕ) (x : Document)
  | delete (podcastId : ℕ)

def Db.step (parse : List Char → Option PubDate) (db : Db) : Op → Db
  | .add feedUrl x => db.addPodcast feedUrl (x.feed parse)
  | .refresh podcastId x => db.refreshPodcast podcastId (x.feed parse)
  | .delete podcastId => db.deletePodcast podcastId

/-- **A history**, from no podcasts on. -/
def run (parse : List Char → Option PubDate) (ops : List Op) : Db :=
  ops.foldl (Db.step parse) ⟨∅, ∅⟩

/-! ### What is asked for -/

/-- One episode may be listed before another: a dated one that is not the earlier, or any before
one that has no date. -/
structure NewestFirst (a b : ℕ × Episode) : Prop where
  undated : a.2.publishedAt = none → b.2.publishedAt = none
  dated : ∀ d d', a.2.publishedAt = some (toRfc3339 d) → b.2.publishedAt = some (toRfc3339 d') →
    d'.instant ≤ d.instant

def Db.pages (scan : Scan) (podcastId : ℕ) (limit : Option ℤ) (n : ℕ) (db : Db) :
    List (ℕ × Episode) :=
  (List.range n).flatMap fun k : ℕ =>
    ((db.listPodcastEpisodes scan podcastId limit (some (k * (paginate limit none).1))).map
      Prod.fst).getD []

/-- **The pages list every episode once, newest first**, when there are enough of them. -/
def Listed (scan : Scan) (podcastId : ℕ) (db : Db) : Prop :=
  ∀ limit n, (db.episodesOf podcastId).length ≤ n * (paginate limit none).1.toNat →
    (db.pages scan podcastId limit n).Perm (db.episodesOf podcastId) ∧
      (db.pages scan podcastId limit n).Pairwise NewestFirst

/-! ### When texts agree with instants -/

def YearBefore (y y' : ℕ) : Prop := TextLt (yearText y ++ ['-']) (yearText y' ++ ['-'])

def LocalBefore (d d' : PubDate) : Prop :=
  YearBefore d.year d'.year ∨ (d.year = d'.year ∧ List.Lex (· < ·) d.rest d'.rest)

/-- **Two dates whose local times agree with the dates**: the one with the earlier local time is not
the later, and if the local times are alike and neither is west of Greenwich their offsets are. -/
structure Agree (d d' : PubDate) : Prop where
  instant_le : LocalBefore d d' → d.instant ≤ d'.instant
  offset_eq : d.year = d'.year → d.rest = d'.rest → 0 ≤ d.offset → 0 ≤ d'.offset →
    d.offset = d'.offset

/-- The dates of a podcast's episodes agree with their local times. -/
def InOrder (podcastId : ℕ) (db : Db) : Prop :=
  ∀ a ∈ db.episodesOf podcastId, ∀ b ∈ db.episodesOf podcastId, ∀ d d',
    a.2.publishedAt = some (toRfc3339 d) → b.2.publishedAt = some (toRfc3339 d') → Agree d d'

/-! ### The texts of dates -/

section texts

variable (d d' : PubDate)

theorem yearText_of_le {y : ℕ} (h : y ≤ 9999) :
    yearText y = (two (y / 100)).digits ++ (two (y % 100)).digits := if_pos h

theorem notMem_digits {c : Char} (hc : c.isDigit = false) {width : ℕ} (f : Field width) :
    c ∉ f.digits := by
  intro hmem
  have hdigit := List.all_eq_true.mp f.isDigit c hmem
  rw [hc] at hdigit
  cases hdigit

theorem hyphen_notMem_yearText (y : ℕ) : '-' ∉ yearText y := by
  unfold yearText
  split
  · intro hmem
    rcases List.mem_append.mp hmem with hmem | hmem
    · exact notMem_digits (by decide) _ hmem
    · exact notMem_digits (by decide) _ hmem
  · intro hmem
    rcases List.mem_cons.mp hmem with heq | hmem
    · exact absurd heq (by decide)
    · exact absurd (Decimal.isDigit_of_mem_text hmem) (by decide)

theorem yearBefore_iff {y y' : ℕ} (h : y ≤ 9999) (h' : y' ≤ 9999) :
    YearBefore y y' ↔ y < y' := by
  have hirrefl : ¬ TextLt [] [] := TextOrder.textLt_irrefl []
  rw [YearBefore, yearText_of_le h, yearText_of_le h', List.append_assoc, List.append_assoc,
    Field.lt_iff, Field.lt_iff, TextOrder.lex_separator, TextOrder.value_two (by omega),
    TextOrder.value_two (by omega), TextOrder.value_two (by omega),
    TextOrder.value_two (by omega)]
  simp only [hirrefl, and_false, or_false]
  omega

theorem yearText_injective : Function.Injective yearText := by
  have hsign : ∀ y y', y ≤ 9999 → ¬ y' ≤ 9999 → yearText y ≠ yearText y' := by
    intro y y' h h' heq
    have hmem : '+' ∈ yearText y := by
      rw [heq, yearText, if_neg h']
      exact List.mem_cons_self
    rw [yearText_of_le h] at hmem
    rcases List.mem_append.mp hmem with hmem | hmem
    · exact notMem_digits (by decide) _ hmem
    · exact notMem_digits (by decide) _ hmem
  intro y y' heq
  by_cases h : y ≤ 9999 <;> by_cases h' : y' ≤ 9999
  · have hnot : ∀ z z', yearText z = yearText z' → ¬ YearBefore z z' := by
      intro z z' hz
      rw [YearBefore, hz]
      exact TextOrder.textLt_irrefl _
    have hle := mt (yearBefore_iff h h').mpr (hnot y y' heq)
    have hge := mt (yearBefore_iff h' h).mpr (hnot y' y heq.symm)
    omega
  · exact absurd heq (hsign y y' h h')
  · exact absurd heq.symm (hsign y' y h' h)
  · rw [yearText, yearText, if_neg h, if_neg h'] at heq
    have hread : ∀ n, Nat.ofDigitChars 10 (Decimal.text n) 0 = n := fun n =>
      Nat.ofDigitChars_ten_toDigits
    rw [← hread y, (List.cons.inj heq).2, hread]

/-- The text of an offset is greater to the west, and away from Greenwich. -/
def OffsetBefore (o o' : ℤ) : Prop :=
  (0 ≤ o ∧ (o' < 0 ∨ o < o')) ∨ (o < 0 ∧ o' < o)

theorem offsetText_lt {o o' : ℤ} (h : o.natAbs < 24 * 60) (h' : o'.natAbs < 24 * 60) :
    TextLt (offsetText o) (offsetText o') ↔ OffsetBefore o o' := by
  have hvalue : ∀ n, n < 100 → (two n).value = n := fun n h => TextOrder.value_two h
  have hdigits : ∀ m n : ℕ, m < 24 * 60 → n < 24 * 60 →
      (TextLt ((two (m / 60)).digits ++ ':' :: (two (m % 60)).digits)
        ((two (n / 60)).digits ++ ':' :: (two (n % 60)).digits) ↔ m < n) := by
    intro m n hm hn
    rw [Field.lt_iff, TextOrder.lex_separator, Field.last_lt_iff, hvalue _ (by omega),
      hvalue _ (by omega), hvalue _ (by omega), hvalue _ (by omega)]
    omega
  unfold offsetText OffsetBefore
  by_cases hneg : o < 0 <;> by_cases hneg' : o' < 0
  · rw [if_pos hneg, if_pos hneg', TextOrder.lex_separator, hdigits _ _ h h']
    omega
  · rw [if_pos hneg, if_neg hneg']
    refine iff_of_false (fun hlt => ?_) (by omega)
    rw [TextLt, List.cons_lex_cons_iff] at hlt
    exact absurd hlt (by simp)
  · rw [if_neg hneg, if_pos hneg']
    exact iff_of_true (List.Lex.rel (by decide)) (by omega)
  · rw [if_neg hneg, if_neg hneg', TextOrder.lex_separator, hdigits _ _ h h']
    omega

/-- **How the texts of dates are ordered.** -/
theorem toRfc3339_lt : TextLt (toRfc3339 d) (toRfc3339 d') ↔
    LocalBefore d d' ∨ (d.year = d'.year ∧ d.rest = d'.rest ∧ OffsetBefore d.offset d'.offset) := by
  have hmonth : ∀ e : PubDate, (two e.month).value = e.month := fun e =>
    TextOrder.value_two (lt_of_le_of_lt e.month_le (by decide))
  have hday : ∀ e : PubDate, (two e.day).value = e.day := fun e =>
    TextOrder.value_two (lt_of_le_of_lt e.day_le (by decide))
  have hhour : ∀ e : PubDate, (two e.hour).value = e.hour := fun e =>
    TextOrder.value_two (lt_trans e.hour_lt (by decide))
  have hminute : ∀ e : PubDate, (two e.minute).value = e.minute := fun e =>
    TextOrder.value_two (lt_trans e.minute_lt (by decide))
  have hsecond : ∀ e : PubDate, (two e.second).value = e.second := fun e =>
    TextOrder.value_two (lt_of_le_of_lt e.second_le (by decide))
  unfold toRfc3339
  rw [TextOrder.lt_separated (hyphen_notMem_yearText _) (hyphen_notMem_yearText _),
    yearText_injective.eq_iff]
  simp only [Field.lt_iff, TextOrder.lex_separator, offsetText_lt d.offset_lt d'.offset_lt, hmonth,
    hday, hhour, hminute, hsecond, LocalBefore, YearBefore, PubDate.rest, List.cons_lex_cons_iff,
    List.not_lex_nil, and_false, or_false, List.cons.injEq, and_true]
  tauto

theorem instant_le_iff (hyear : d.year = d'.year) (hrest : d.rest = d'.rest) :
    d.instant ≤ d'.instant ↔ d'.offset ≤ d.offset := by
  simp only [PubDate.rest, List.cons.injEq, and_true] at hrest
  obtain ⟨hmonth, hday, hhour, hminute, hsecond⟩ := hrest
  unfold PubDate.instant
  rw [hyear, hmonth, hday, hhour, hminute, hsecond]
  omega

theorem instant_eq_of_text (h : toRfc3339 d = toRfc3339 d') : d.instant = d'.instant := by
  have hnot : ¬ TextLt (toRfc3339 d) (toRfc3339 d') := h ▸ TextOrder.textLt_irrefl _
  have hnot' : ¬ TextLt (toRfc3339 d') (toRfc3339 d) := h ▸ TextOrder.textLt_irrefl _
  rw [toRfc3339_lt, not_or] at hnot hnot'
  have hyear : d.year = d'.year := by
    rcases TextOrder.textLt_or_eq (yearText d.year ++ ['-']) (yearText d'.year ++ ['-']) with
      hlt | heq | hlt
    · exact absurd (Or.inl hlt) hnot.1
    · exact yearText_injective (List.append_cancel_right heq)
    · exact absurd (Or.inl hlt) hnot'.1
  have hrest : d.rest = d'.rest := by
    have hle : ¬ d.rest < d'.rest := fun hlt => hnot.1 (Or.inr ⟨hyear, hlt⟩)
    rcases List.le_iff_lt_or_eq.mp (List.not_lt.mp hle) with hlt | heq
    · exact absurd (Or.inr ⟨hyear.symm, hlt⟩) hnot'.1
    · exact heq.symm
  have hoffset : d.offset = d'.offset := by
    have hbefore : ¬ OffsetBefore d.offset d'.offset := fun hb => hnot.2 ⟨hyear, hrest, hb⟩
    have hbefore' : ¬ OffsetBefore d'.offset d.offset := fun hb =>
      hnot'.2 ⟨hyear.symm, hrest.symm, hb⟩
    unfold OffsetBefore at hbefore hbefore'
    omega
  exact le_antisymm ((instant_le_iff d d' hyear hrest).mpr hoffset.ge)
    ((instant_le_iff d' d hyear.symm hrest.symm).mpr hoffset.le)

/-- **Two texts are in the order of their instants** exactly when the dates agree with their local
times. -/
theorem agree_iff : (TextLt (toRfc3339 d) (toRfc3339 d') → d.instant ≤ d'.instant) ∧
    (TextLt (toRfc3339 d') (toRfc3339 d) → d'.instant ≤ d.instant) ↔ Agree d d' ∧ Agree d' d := by
  rw [toRfc3339_lt, toRfc3339_lt]
  constructor
  · rintro ⟨h, h'⟩
    have heast : ∀ e e' : PubDate, (LocalBefore e e' ∨ (e.year = e'.year ∧ e.rest = e'.rest ∧
        OffsetBefore e.offset e'.offset) → e.instant ≤ e'.instant) → e.year = e'.year →
        e.rest = e'.rest → 0 ≤ e.offset → 0 ≤ e'.offset → ¬ e.offset < e'.offset := by
      intro e e' hle hyear hrest h0 h0' hlt
      have hoffset := (instant_le_iff e e' hyear hrest).mp
        (hle (Or.inr ⟨hyear, hrest, Or.inl ⟨h0, Or.inr hlt⟩⟩))
      omega
    refine ⟨⟨fun hlocal => h (Or.inl hlocal), fun hyear hrest h0 h0' => ?_⟩,
      ⟨fun hlocal => h' (Or.inl hlocal), fun hyear hrest h0 h0' => ?_⟩⟩
    · have hnot := heast d d' h hyear hrest h0 h0'
      have hnot' := heast d' d h' hyear.symm hrest.symm h0' h0
      omega
    · have hnot := heast d d' h hyear.symm hrest.symm h0' h0
      have hnot' := heast d' d h' hyear hrest h0 h0'
      omega
  · have hle : ∀ e e' : PubDate, Agree e e' → LocalBefore e e' ∨ (e.year = e'.year ∧
        e.rest = e'.rest ∧ OffsetBefore e.offset e'.offset) → e.instant ≤ e'.instant := by
      intro e e' hagree
      rintro (hlocal | ⟨hyear, hrest, hoffset⟩)
      · exact hagree.instant_le hlocal
      · rw [instant_le_iff e e' hyear hrest]
        have heast := hagree.offset_eq hyear hrest
        unfold OffsetBefore at hoffset
        omega
    exact fun h => ⟨hle d d' h.1, hle d' d h.2⟩

end texts

/-! ### The order of a listing -/

section listing

variable {a b : ℕ × Episode} {l : List (ℕ × Episode)} {s t : List Char}

theorem compareEpisodes_dated (hs : a.2.publishedAt = some s) (ht : b.2.publishedAt = some t) :
    compareEpisodes a b = TextOrder.compareText t s := by
  rw [compareEpisodes, hs, ht, TextOrder.compareText_swap t s]

theorem orders_compareEpisodes (l : List (ℕ × Episode)) : SortBy.Orders compareEpisodes l where
  swap a _ b _ := by
    unfold compareEpisodes
    rcases a.2.publishedAt with _ | s <;> rcases b.2.publishedAt with _ | t
    · rfl
    · rfl
    · rfl
    · exact congrArg Ordering.swap (TextOrder.compareText_swap s t)
  trans a _ b _ c _ hab hbc := by
    rcases hs : a.2.publishedAt with _ | s <;> rcases ht : b.2.publishedAt with _ | t <;>
      rcases hu : c.2.publishedAt with _ | u
    · simp [compareEpisodes, hs, hu]
    · simp [compareEpisodes, ht, hu] at hbc
    · simp [compareEpisodes, hs, hu]
    · simp [compareEpisodes, hs, ht] at hab
    · simp [compareEpisodes, hs, hu]
    · simp [compareEpisodes, ht, hu] at hbc
    · simp [compareEpisodes, hs, hu]
    · rw [compareEpisodes_dated hs ht, TextOrder.compareText_ne_gt] at hab
      rw [compareEpisodes_dated ht hu, TextOrder.compareText_ne_gt] at hbc
      rw [compareEpisodes_dated hs hu, TextOrder.compareText_ne_gt]
      exact TextOrder.not_textLt_trans hab hbc

theorem newestFirst_of_compare (hagree : ∀ d d', a.2.publishedAt = some (toRfc3339 d) →
      b.2.publishedAt = some (toRfc3339 d') → Agree d d' ∧ Agree d' d)
    (h : compareEpisodes a b ≠ .gt) : NewestFirst a b where
  undated hs := by
    rcases ht : b.2.publishedAt with _ | t
    · rfl
    · simp [compareEpisodes, hs, ht] at h
  dated d d' hs ht := by
    rw [compareEpisodes_dated hs ht, TextOrder.compareText_ne_gt] at h
    rcases TextOrder.textLt_or_eq (toRfc3339 d) (toRfc3339 d') with hlt | heq | hlt
    · exact absurd hlt h
    · exact (instant_eq_of_text d d' heq).ge
    · exact ((agree_iff d d').mpr (hagree d d' hs ht)).2 hlt

theorem related_of_pairwise {R : ℕ × Episode → ℕ × Episode → Prop} (h : l.Pairwise R) (ha : a ∈ l)
    (hb : b ∈ l) (hne : a ≠ b) : R a b ∨ R b a := by
  induction l with
  | nil => cases ha
  | cons c l ih =>
    obtain ⟨hc, hl⟩ := List.pairwise_cons.mp h
    rcases List.mem_cons.mp ha with hac | hac <;> rcases List.mem_cons.mp hb with hbc | hbc
    · exact absurd (hac.trans hbc.symm) hne
    · exact Or.inl (hac ▸ hc b hbc)
    · exact Or.inr (hbc ▸ hc a hac)
    · exact ih hl hac hbc

/-- **Episodes sorted by their texts are newest first** if and only if their dates agree. -/
theorem pairwise_newestFirst_iff {sorted : List (ℕ × Episode)}
    (hsorted : sorted.Pairwise fun a b => compareEpisodes a b ≠ .gt) :
    sorted.Pairwise NewestFirst ↔ ∀ a ∈ sorted, ∀ b ∈ sorted, ∀ d d',
      a.2.publishedAt = some (toRfc3339 d) → b.2.publishedAt = some (toRfc3339 d') →
        Agree d d' := by
  constructor
  · intro hnewest
    have hboth := hsorted.and hnewest
    have hle : ∀ a ∈ sorted, ∀ b ∈ sorted, ∀ d d', a.2.publishedAt = some (toRfc3339 d) →
        b.2.publishedAt = some (toRfc3339 d') → TextLt (toRfc3339 d) (toRfc3339 d') →
          d.instant ≤ d'.instant := by
      intro a ha b hb d d' hs ht hlt
      have hne : a ≠ b := by
        rintro rfl
        rw [Option.some.inj (hs.symm.trans ht)] at hlt
        exact TextOrder.textLt_irrefl _ hlt
      -- the episode with the greater text comes first
      have hgt : ¬ compareEpisodes a b ≠ .gt := by
        rw [compareEpisodes_dated hs ht, TextOrder.compareText_ne_gt]
        exact fun hnot => hnot hlt
      rcases related_of_pairwise hboth ha hb hne with ⟨hcompare, -⟩ | ⟨-, hfirst⟩
      · exact absurd hcompare hgt
      · exact hfirst.dated d' d ht hs
    intro a ha b hb d d' hs ht
    exact ((agree_iff d d').mp ⟨hle a ha b hb d d' hs ht, hle b hb a ha d' d ht hs⟩).1
  · intro hagree
    refine hsorted.imp_of_mem fun {a b} ha hb h => newestFirst_of_compare (fun d d' hs ht => ?_) h
    exact ⟨hagree a ha b hb d d' hs ht, hagree b hb a ha d' d ht hs⟩

end listing

/-! ### Pages -/

theorem flatMap_pages {α : Type} (l : List α) (size n : ℕ) :
    ((List.range n).flatMap fun k => (l.drop (k * size)).take size) = l.take (n * size) := by
  induction n with
  | zero => simp
  | succ n ih =>
    rw [List.range_succ, List.flatMap_append, ih, List.flatMap_singleton, Nat.add_mul, Nat.one_mul,
      List.take_add]

theorem pages_eq {scan : Scan} {podcastId : ℕ} {db : Db} {limit : Option ℤ} {n : ℕ}
    (hpodcast : (db.podcasts.get? podcastId).isSome = true)
    (hn : (db.episodesOf podcastId).length ≤ n * (paginate limit none).1.toNat) :
    db.pages scan podcastId limit n =
      SortBy.sortBy compareEpisodes (scan.read (db.episodesOf podcastId)) := by
  have hlength : (SortBy.sortBy compareEpisodes (scan.read (db.episodesOf podcastId))).length =
      (db.episodesOf podcastId).length :=
    ((SortBy.perm_sortBy _).trans (scan.perm _)).length_eq
  have hpos : 0 ≤ (paginate limit none).1 := le_trans (by decide) (le_max_left _ _)
  obtain ⟨size, hsize⟩ := Int.eq_ofNat_of_zero_le hpos
  have hpage : ∀ k : ℕ, (paginate limit (some (k * (paginate limit none).1))).1.toNat = size ∧
      (paginate limit (some (k * (paginate limit none).1))).2.toNat = k * size := by
    intro k
    refine ⟨by rw [← Int.toNat_natCast size, ← hsize]; rfl, ?_⟩
    rw [hsize]
    show (max ((k : ℤ) * size) 0).toNat = k * size
    rw [max_eq_left (by positivity), ← Nat.cast_mul, Int.toNat_natCast]
  rw [hsize, Int.toNat_natCast] at hn
  rw [← List.take_of_length_le (hlength.trans_le hn), ← flatMap_pages]
  unfold Db.pages
  refine List.flatMap_congr fun k _ => ?_
  rw [Db.listPodcastEpisodes, if_pos hpodcast, Option.map_some, Option.getD_some, (hpage k).1,
    (hpage k).2]

/-! ### What is stored -/

/-- **What holds of the rows at all times**: an episode belongs to a podcast that is there, and its
date, if it has one, was written as a date. -/
structure Stored (db : Db) : Prop where
  podcast : ∀ e ∈ db.episodes, (db.podcasts.get? e.2.podcastId).isSome = true
  dated : ∀ e ∈ db.episodes, ∀ t ∈ e.2.publishedAt, ∃ d, t = toRfc3339 d

section stored

variable {parse : List Char → Option PubDate} {db : Db} {podcastId : ℕ}

theorem get?_isSome {t : AutoTable Podcast} {i : ℕ} :
    (t.get? i).isSome = true ↔ ∃ p, (i, p) ∈ t := by
  rw [Option.isSome_iff_exists]
  exact exists_congr fun p => AutoTable.get?_eq_some

theorem dated_feed {x : Document} {ep : FeedEpisode} (h : ep ∈ (x.feed parse).episodes) :
    ∀ t ∈ ep.publishedAt, ∃ d, t = toRfc3339 d := by
  obtain ⟨item, -, hitem⟩ := List.mem_filterMap.mp h
  rw [Item.episode] at hitem
  split at hitem
  · cases hitem
  · obtain rfl := Option.some.inj hitem
    intro t ht
    obtain ⟨raw, -, hraw⟩ := List.exists_of_findSome?_eq_some ht
    obtain ⟨d, -, rfl⟩ := Option.map_eq_some_iff.mp hraw
    exact ⟨d, rfl⟩

theorem forall_storeEpisodes (P : Episode → Prop) : ∀ {eps : List FeedEpisode}
    {t : AutoTable Episode}, (∀ e ∈ t, P e.2) → (∀ ep ∈ eps, P ⟨ep, podcastId⟩) →
      ∀ e ∈ eps.foldl (storeEpisode podcastId) t, P e.2
  | [], _, h, _ => h
  | ep :: eps, t, h, heps => by
    obtain ⟨hep, hrest⟩ := List.forall_mem_cons.mp heps
    have hstored : ∀ e ∈ storeEpisode podcastId t ep, P e.2 := AutoTable.forall_upsert h hep
    show ∀ e ∈ eps.foldl (storeEpisode podcastId) (storeEpisode podcastId t ep), P e.2
    exact forall_storeEpisodes P hstored hrest

theorem Stored.storeFeed {x : Document} (h : Stored db)
    (hpodcast : (db.podcasts.get? podcastId).isSome = true) :
    Stored (db.storeFeed podcastId (x.feed parse)) := by
  have hkept : ∀ i, (db.podcasts.get? i).isSome = true →
      ((db.storeFeed podcastId (x.feed parse)).podcasts.get? i).isSome = true := by
    intro i hi
    obtain ⟨p, hp⟩ := get?_isSome.mp hi
    by_cases heq : i = podcastId
    · subst heq
      exact get?_isSome.mpr ⟨_, AutoTable.mem_updateRow_self hp⟩
    · exact get?_isSome.mpr ⟨p, AutoTable.mem_updateRow_of_ne hp heq⟩
  refine ⟨?_, ?_⟩
  · exact forall_storeEpisodes (fun e => ((db.storeFeed podcastId
      (x.feed parse)).podcasts.get? e.podcastId).isSome = true)
      (fun e he => hkept _ (h.podcast e he)) fun _ _ => hkept _ hpodcast
  · exact forall_storeEpisodes (fun e => ∀ t ∈ e.publishedAt, ∃ d, t = toRfc3339 d) h.dated
      fun ep hep => dated_feed hep

/-- **Each operation keeps what holds of the rows.** -/
theorem Stored.step (h : Stored db) (op : Op) : Stored (db.step parse op) := by
  cases op with
  | add feedUrl x =>
    rw [Db.step, Db.addPodcast]
    split
    · exact h
    · refine Stored.storeFeed ⟨fun e he => ?_, h.dated⟩
        (get?_isSome.mpr ⟨_, AutoTable.mem_insert.mpr (Or.inr rfl)⟩)
      obtain ⟨p, hp⟩ := get?_isSome.mp (h.podcast e he)
      exact get?_isSome.mpr ⟨p, AutoTable.mem_insert.mpr (Or.inl hp)⟩
  | refresh podcastId x =>
    rw [Db.step, Db.refreshPodcast]
    split
    · next hpodcast => exact h.storeFeed hpodcast
    · exact h
  | delete podcastId =>
    refine ⟨fun e he => ?_, fun e he => h.dated e (AutoTable.mem_remove.mp he).1⟩
    obtain ⟨he, hne⟩ := AutoTable.mem_remove.mp he
    obtain ⟨p, hp⟩ := get?_isSome.mp (h.podcast e he)
    exact get?_isSome.mpr ⟨p, AutoTable.mem_remove.mpr ⟨hp, hne⟩⟩

/-- **In every history** episodes belong to podcasts, and their dates are dates. -/
theorem stored_run (parse : List Char → Option PubDate) (ops : List Op) :
    Stored (run parse ops) := by
  have hempty : Stored ⟨∅, ∅⟩ :=
    ⟨fun e he => absurd he (AutoTable.not_mem_empty e),
      fun e he => absurd he (AutoTable.not_mem_empty e)⟩
  rw [run]
  generalize (⟨∅, ∅⟩ : Db) = db at hempty
  induction ops generalizing db with
  | nil => exact hempty
  | cons op ops ih => exact ih _ (hempty.step op)

end stored

/-- **The pages list the episodes newest first** if and only if their dates agree. -/
theorem Stored.listed_iff {db : Db} (hstored : Stored db) (scan : Scan) (podcastId : ℕ) :
    Listed scan podcastId db ↔ InOrder podcastId db := by
  by_cases hpodcast : (db.podcasts.get? podcastId).isSome = true
  · have hperm : (SortBy.sortBy compareEpisodes (scan.read (db.episodesOf podcastId))).Perm
        (db.episodesOf podcastId) := (SortBy.perm_sortBy _).trans (scan.perm _)
    have hiff := pairwise_newestFirst_iff (SortBy.pairwise_sortBy
      (orders_compareEpisodes (scan.read (db.episodesOf podcastId))))
    constructor
    · intro h a ha b hb
      have hall : (db.episodesOf podcastId).length ≤
          (db.episodesOf podcastId).length * (paginate none none).1.toNat :=
        Nat.le_mul_of_pos_right _ (by decide)
      have hpages := (h none _ hall).2
      rw [pages_eq hpodcast hall] at hpages
      exact hiff.mp hpages a (hperm.mem_iff.mpr ha) b (hperm.mem_iff.mpr hb)
    · intro h limit n hn
      rw [pages_eq hpodcast hn]
      exact ⟨hperm, hiff.mpr fun a ha b hb => h a (hperm.mem_iff.mp ha) b (hperm.mem_iff.mp hb)⟩
  · -- a podcast that is not there has no episodes
    have hnone : db.episodesOf podcastId = [] := by
      refine List.filter_eq_nil_iff.mpr fun e he hid => hpodcast ?_
      rw [← of_decide_eq_true hid]
      exact hstored.podcast e he
    refine iff_of_true (fun limit n _ => ?_) fun a ha => ?_
    · have hpages : db.pages scan podcastId limit n = [] := by
        refine List.flatMap_eq_nil_iff.mpr fun k _ => ?_
        rw [Db.listPodcastEpisodes, if_neg hpodcast]
        rfl
      rw [hpages, hnone]
      exact ⟨List.Perm.nil, List.Pairwise.nil⟩
    · rw [hnone] at ha
      cases ha

/-- **Podcast episodes.** In every history of subscriptions, refreshes and deletions, the dates that
are stored are texts of dates; and the pages list every episode of a podcast once, the dated ones
newest first and the others last, if and only if the dates of its episodes agree with their local
times. -/
theorem listed_run_iff (parse : List Char → Option PubDate) (ops : List Op) (scan : Scan)
    (podcastId : ℕ) :
    (∀ e ∈ (run parse ops).episodes, ∀ t ∈ e.2.publishedAt, ∃ d, t = toRfc3339 d) ∧
      (Listed scan podcastId (run parse ops) ↔ InOrder podcastId (run parse ops)) :=
  ⟨(stored_run parse ops).dated, (stored_run parse ops).listed_iff scan podcastId⟩

/-! ### Two offsets -/

def tokyo : PubDate :=
  ⟨2024, 1, 1, 10, 0, 0, 540, by decide, by decide, by decide, by decide, by decide, by decide⟩

/-- Nine in the morning in New York, thirteen hours later. -/
def newYork : PubDate :=
  ⟨2024, 1, 1, 9, 0, 0, -300, by decide, by decide, by decide, by decide, by decide, by decide⟩

def parseTwo (raw : List Char) : Option PubDate :=
  if raw = "Mon, 01 Jan 2024 10:00:00 +0900".toList then some tokyo
  else if raw = "Mon, 01 Jan 2024 09:00:00 -0500".toList then some newYork
  else none

def twoItems : Document where
  title := "News".toList
  description := none
  imageUrl := none
  items := [⟨"a".toList, "A".toList, "https://a".toList,
      ["Mon, 01 Jan 2024 10:00:00 +0900".toList], none, none⟩,
    ⟨"b".toList, "B".toList, "https://b".toList,
      ["Mon, 01 Jan 2024 09:00:00 -0500".toList], none, none⟩]

/-- **The earlier episode comes first**, in whatever order the rows are read. -/
theorem not_listed_twoItems :
    ¬ ∃ scan, Listed scan 1 (run parseTwo [.add "https://f".toList twoItems]) := by
  rintro ⟨scan, h⟩
  have horder := ((stored_run _ _).listed_iff scan 1).mp h
  have hrows : (Db.episodesOf 1 (run parseTwo [.add "https://f".toList twoItems])).map
      (fun e => e.2.publishedAt) = [some (toRfc3339 tokyo), some (toRfc3339 newYork)] := by
    decide
  have htokyo : some (toRfc3339 tokyo) ∈ (Db.episodesOf 1 (run parseTwo
      [.add "https://f".toList twoItems])).map fun e => e.2.publishedAt := by
    rw [hrows]
    exact List.mem_cons_self
  have hnewYork : some (toRfc3339 newYork) ∈ (Db.episodesOf 1 (run parseTwo
      [.add "https://f".toList twoItems])).map fun e => e.2.publishedAt := by
    rw [hrows]
    exact List.mem_cons_of_mem _ List.mem_cons_self
  obtain ⟨a, ha, hadate⟩ := List.mem_map.mp htokyo
  obtain ⟨b, hb, hbdate⟩ := List.mem_map.mp hnewYork
  have hle := (horder b hb a ha newYork tokyo hbdate hadate).instant_le
    (Or.inr ⟨rfl, List.Lex.cons (List.Lex.cons (List.Lex.rel (by decide)))⟩)
  exact absurd hle (by decide)

end EmeraldExchange.MediaCore.PodcastEpisodes
