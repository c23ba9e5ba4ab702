import Mathlib.Data.Finset.Dedup
import Mathlib.Data.Finset.Lattice.Basic
import Mathlib.Data.Int.Notation
import Mathlib.Data.List.Sort
import EmeraldExchange.Iptv.EpgResolve

/-!
# The refresh of the guide

`refresh` in `crates/iptv/src/epg.rs`: rows that are over are dropped, the provider's feed is
committed, feeds of the West are derived from those of the East, every channel is resolved, and the
external feeds fill in what is left.

A channel that was resolved has programmes, and goes on to have them as long as nothing takes them
away. What a feed has delivered no later feed touches. A derived feed of the West is not among
these: an external feed may deliver nothing but filler for it, and its rows are then deleted, though
the channel stays resolved to it. This is the only way
(`resolvedHaveRows_iff`).
-/

namespace EmeraldExchange.Iptv

/-- A row of `channels`. -/
structure Channel where
  name : String
  epgChannelId : Option String
  epgResolvedId : Option String
  deriving DecidableEq

/-- **The tables of the guide.** -/
structure GuideDb where
  channels : Table ℤ Channel
  guide : Guide

/-- `WEST_DELAY` after a time, if it is one. -/
structure Clock where
  later : String → Option String

/-- `COALESCE(NULLIF(TRIM(id), ''), '') = ''` -/
def isBlank (id : Option String) : Bool := id.all fun s => s.toList.all (· = ' ')

/-! ### The West -/

/-- `west_stem` -/
def westStem (id : String) : Option String :=
  let mark := "west.us".toList
  let stem := id.toList.take (id.toList.length - mark.length)
  if mark.isSuffixOf id.toList ∧ stem ≠ [] ∧
      ["south", "mid", "north"].all fun region => !region.toList.isSuffixOf stem then
    some (String.ofList stem)
  else none

structure WestFeeds where
  channels : ℕ
  programmes : ℕ
  ids : List String

def rowsOf (guide : Guide) (id : String) : List (String × Airing) :=
  (guide.entries.filter (·.1.1 = id)).map fun e => (e.1.2, e.2)

/-- The schedule of the East that stands for one of the West. -/
def eastRows (guide : Guide) (stem : String) : List (String × Airing) :=
  let east := rowsOf guide (stem ++ ".us")
  if east ≠ [] then east else rowsOf guide (stem ++ "east.us")

def copyOf (clock : Clock) (row : String × Airing) : Except String (String × Airing) :=
  match clock.later row.1, clock.later row.2.stopUtc with
  | some start, some stop => .ok (start, { row.2 with stopUtc := stop, derived := true })
  | none, _ => .error ("epg_bad_time:" ++ row.1)
  | _, none => .error ("epg_bad_time:" ++ row.2.stopUtc)

/-- `INSERT` -/
def insertRow (id : String) (row : String × Airing) (guide : Guide) : Except String Guide :=
  if (id, row.1) ∈ guide then .error keyTaken else .ok (guide.insert (id, row.1) row.2)

def deriveWest (clock : Clock) (fed : Finset String) (id : String) (s : Guide × WestFeeds) :
    Except String (Guide × WestFeeds) :=
  match westStem id with
  | none => .ok s
  | some stem =>
    if id ∈ fed then .ok s
    else if eastRows s.1 stem = [] then .ok s
    else do
      let copies ← (eastRows s.1 stem).mapM (copyOf clock)
      let firstCopy := ((copies.map (·.1)).min?).getD ""
      let out := { s.2 with ids := s.2.ids ++ [id] }
      if (rowsOf s.1 id).any fun row => !row.2.derived && firstCopy < row.2.stopUtc then
        return (s.1, out)
      else
        let guide := s.1.retainRows fun key row =>
          !(key.1 = id && row.derived && firstCopy < row.stopUtc)
        let guide ← copies.foldlM (fun guide row => insertRow id row guide) guide
        return (guide, { out with
          channels := out.channels + 1
          programmes := out.programmes + copies.length })

def listedIds (channels : Table ℤ Channel) : List String :=
  let listed := channels.values.flatMap fun ch =>
    ch.epgChannelId.toList ++ ((ch.epgResolvedId.or ch.epgChannelId).filter (· ≠ "")).toList
  listed.dedup.insertionSort (· ≤ ·)

/-- **`derive_west_feed_epg`**: all of it, or nothing. -/
def deriveWestFeedEpg (clock : Clock) (fed : Finset String) (db : GuideDb) :
    Except String (GuideDb × WestFeeds) := do
  let (guide, west) ← (listedIds db.channels).foldlM (fun s id => deriveWest clock fed id s)
    (db.guide, ⟨0, 0, []⟩)
  return ({ db with guide := guide }, west)

/-! ### Resolution -/

variable (v : Values) (R : Rules)

def Channel.catalog (ch : Channel) : CatalogChannel := ⟨ch.name, ch.epgChannelId⟩

def lastStops (guide : Guide) (ids : List String) : Table String String :=
  ids.foldl (fun t id =>
    match ((rowsOf guide id).map (·.2.stopUtc)).max? with
    | some stop => t.insert id stop
    | none => t) ∅

/-- **`resolve_epg_channels`** -/
def resolveEpgChannels (defs : List ChannelDef) (feedWithEpg : Finset String) (db : GuideDb) :
    GuideDb :=
  let index := { buildEpgNameIndex v R defs feedWithEpg with
    catalogTvg := catalogTvgIndex v R (db.channels.values.map Channel.catalog) feedWithEpg
    lastStop := lastStops db.guide (db.guide.keys.map (·.1)) }
  { db with channels := db.channels.mapValues fun _ ch =>
      { ch with epgResolvedId := resolveEpgId v R ch.catalog index } }

/-! ### External feeds -/

/-- A channel that an external feed may stand for. -/
structure Match where
  streamId : ℤ
  id : String
  station : Option CatalogChannel

/-- The identifiers to keep programmes for, and the channels they are for. -/
structure Candidates where
  wanted : Finset String
  matches' : List Match

/-- **`resolve_against_external`** -/
def resolveAgainstExternal (defs : List ChannelDef) (channels : Table ℤ Channel) : Candidates :=
  let feedIds := (defs.filterMap fun d => epgId v (some d.id)).toFinset
  let index := buildEpgNameIndex v R defs feedIds
  let found := (channels.entries.filter fun e => isBlank e.2.epgResolvedId).filterMap fun e =>
    ((resolveEpgId v R e.2.catalog index).filter (· ≠ "")).map fun id =>
      let ids := callsignIds v R e.2.catalog index
      ((id :: ids), Match.mk e.1 id (if 1 < ids.length then some e.2.catalog else none))
  ⟨(found.flatMap (·.1)).toFinset, found.map (·.2)⟩

/-- What the loop over an external feed has so far. -/
structure External where
  stage : Stage
  defs : List ChannelDef
  candidates : Option Candidates
  stored : ℕ

/-- A programme of an external feed that is stored. -/
def takes (w : Window) (fed west wanted : Finset String) (row : Programme) : Bool :=
  (row.channelId ∈ wanted || row.channelId ∈ west) && row.channelId ∉ fed && w.admits row

/-- **The loop of `ingest_external`.** The parser is told to skip what `takes` would drop. -/
def receiveExternal (w : Window) (fed west : Finset String) (channels : Table ℤ Channel) :
    External → List Delivery → Except String External
  | acc, [] => .ok acc
  | _, .failed e :: _ => .error e
  | acc, .batch b :: rest =>
    let acc := { acc with defs := acc.defs ++ b.channels }
    if b.programmes = [] then receiveExternal w fed west channels acc rest
    else
      let candidates := acc.candidates.getD (resolveAgainstExternal v R acc.defs channels)
      let (stage, stored) := stageRows v (takes w fed west candidates.wanted) b.programmes
        (acc.stage, acc.stored)
      receiveExternal w fed west channels ⟨stage, acc.defs, some candidates, stored⟩ rest

structure ExternalResult where
  ok : Bool
  channelsMatched : ℕ
  programmesStored : ℕ
  idsReplaced : Option ℕ
  placeholdersDropped : Option ℕ
  error : Option String
  deriving DecidableEq

def ExternalResult.failed (e : String) : ExternalResult := ⟨false, 0, 0, none, none, some e⟩

/-- The mappings that retained programmes back. -/
def mappings (defs : List ChannelDef) (candidates : Option Candidates) (staged fed : Finset String)
    (guide : Guide) : List (ℤ × String) :=
  let ids := ((defs.filterMap fun d => epgId v (some d.id)).filter
    fun id => id ∈ staged || id ∈ fed).eraseDups
  let lastStop := lastStops guide ids
  let kept := { buildEpgNameIndex v R defs lastStop.keys.toFinset with lastStop := lastStop }
  ((candidates.map (·.matches')).getD []).filterMap fun m =>
    let id := ((m.station.bind (resolveEpgId v R · kept)).filter (· ≠ "")).getD m.id
    if id ∈ lastStop ∨ id ∈ staged ∨ id ∈ fed then some (m.streamId, id) else none

/-- `SET_UNRESOLVED` for one channel. -/
def setUnresolved (channels : Table ℤ Channel) (row : ℤ × String) : Table ℤ Channel :=
  channels.modify row.1 fun ch =>
    if isBlank ch.epgResolvedId then { ch with epgResolvedId := some row.2 } else ch

/-- **`ingest_external`** -/
def ingestExternal (w : Window) (west : Finset String) (feed : List Delivery)
    (fed : Finset String) (db : GuideDb) : GuideDb × Finset String × ExternalResult :=
  match receiveExternal v R w fed west db.channels ⟨.new, [], none, 0⟩ feed with
  | .error e => (db, fed, .failed e)
  | .ok acc =>
    match acc.stage.commit db.guide with
    | none => (db, fed, .failed keyTaken)
    | some (guide, staged) =>
      let rows := mappings v R acc.defs acc.candidates staged.ids fed guide
      ({ channels := rows.foldl setUnresolved db.channels, guide := guide }, fed ∪ staged.ids,
        ⟨true, rows.length, acc.stored, some staged.replaced, some staged.placeholders, none⟩)

/-! ### The refresh -/

def layer (w : Window) (west : Finset String) :
    List (List Delivery) → Finset String × GuideDb → GuideDb × List ExternalResult
  | [], (_, db) => (db, [])
  | feed :: feeds, (fed, db) =>
    let (db, fed, r) := ingestExternal v R w west feed fed db
    let (db, rs) := layer w west feeds (fed, db)
    (db, r :: rs)

/-- What is known before the external feeds. -/
structure ProviderStep where
  db : GuideDb
  fed : Finset String
  west : Finset String
  stored : ℕ

def dropStale (w : Window) (guide : Guide) : Guide :=
  guide.retain fun row => !(row.stopUtc < w.cutoff)

/-- **The refresh up to the external feeds.** Where it fails, it tells what tables it leaves. -/
def refreshProvider (clock : Clock) (w : Window) (provider : List Delivery) (db : GuideDb) :
    Except (GuideDb × String) ProviderStep :=
  match ingestProvider v w provider (dropStale w db.guide) with
  | (guide, .error e) => .error ({ db with guide := guide }, e)
  | (guide, .ok (staged, defs, stored)) =>
    match deriveWestFeedEpg clock staged.ids { db with guide := guide } with
    | .error e => .error ({ db with guide := guide }, e)
    | .ok (db, west) =>
      .ok ⟨resolveEpgChannels v R defs (staged.ids ∪ west.ids.toFinset) db, staged.ids,
        west.ids.toFinset, stored⟩

/-- **`refresh`**: the tables it leaves, what the external feeds tell, and the programmes of the
provider that were stored. -/
def refresh (clock : Clock) (w : Window) (provider : List Delivery)
    (externals : List (List Delivery)) (db : GuideDb) :
    Except (GuideDb × String) (GuideDb × List ExternalResult × ℕ) :=
  (refreshProvider v R clock w provider db).map fun step =>
    let (db, results) := layer v R w step.west externals (step.fed, step.db)
    (db, results, step.stored)

/-! ### Rows of a channel -/

def HasRows (guide : Guide) (id : String) : Prop := ∃ start a, guide.lookup (id, start) = some a

theorem mem_rowsOf {guide : Guide} {id : String} {row : String × Airing} :
    row ∈ rowsOf guide id ↔ guide.lookup (id, row.1) = some row.2 := by
  rw [rowsOf, List.mem_map, ← Option.mem_def, AList.mem_lookup_iff]
  constructor
  · rintro ⟨⟨⟨id', start⟩, a⟩, he, rfl⟩
    rw [List.mem_filter, decide_eq_true_eq] at he
    obtain ⟨he, rfl⟩ := he
    exact he
  · rintro he
    exact ⟨_, List.mem_filter.mpr ⟨he, by simp⟩, rfl⟩

theorem lookup_insertRow {id : String} {row : String × Airing} {guide guide' : Guide}
    (h : insertRow id row guide = .ok guide') (key : String × String) :
    guide'.lookup key = if key = (id, row.1) then some row.2 else guide.lookup key := by
  rw [insertRow] at h
  split at h
  · cases h
  · obtain rfl := Except.ok.inj h
    by_cases hkey : key = (id, row.1)
    · rw [if_pos hkey, hkey, AList.lookup_insert]
    · rw [if_neg hkey, AList.lookup_insert_ne hkey]

theorem lookup_eq_of_rowsOf {guide guide' : Guide} {id : String}
    (h : rowsOf guide' id = rowsOf guide id) (start : String) :
    guide'.lookup (id, start) = guide.lookup (id, start) := by
  ext a
  have hmem (guide : Guide) : (start, a) ∈ rowsOf guide id ↔ guide.lookup (id, start) = some a :=
    mem_rowsOf
  rw [← hmem, ← hmem, h]

theorem rowsOf_eq_of_insertRow {id id' : String} {row : String × Airing} {guide guide' : Guide}
    (h : insertRow id row guide = .ok guide') (hne : id' ≠ id) :
    rowsOf guide' id' = rowsOf guide id' := by
  rw [insertRow] at h
  split at h
  · cases h
  · next hnew =>
    obtain rfl := Except.ok.inj h
    rw [rowsOf, AList.entries_insert_of_notMem hnew, List.filter_cons_of_neg (by simp [hne.symm])]
    rfl

theorem rowsOf_retainRows {p : String × String → Airing → Bool} {guide : Guide} {id : String}
    (h : ∀ key a, key.1 = id → p key a = true) :
    rowsOf (guide.retainRows p) id = rowsOf guide id := by
  simp only [rowsOf, Table.retainRows, List.filter_filter]
  congr 1
  refine List.filter_congr fun e _ => ?_
  by_cases heq : e.1.1 = id
  · rw [h e.1 e.2 heq, Bool.and_true]
  · rw [decide_eq_false heq, Bool.false_and]

/-- **Rows that go in** are there beside the others, of which none is replaced. -/
theorem lookup_insertRows {id : String} {rows : List (String × Airing)} {guide guide' : Guide}
    (h : rows.foldlM (fun guide row => insertRow id row guide) guide = .ok guide') :
    (∀ id' ≠ id, rowsOf guide' id' = rowsOf guide id') ∧ ∀ start a,
      guide'.lookup (id, start) = some a ↔
        (start, a) ∈ rows ∨ guide.lookup (id, start) = some a := by
  induction rows generalizing guide with
  | nil =>
    obtain rfl := Except.ok.inj h
    exact ⟨fun _ _ => rfl, fun start a => (or_iff_right List.not_mem_nil).symm⟩
  | cons row rows ih =>
    rw [List.foldlM_cons] at h
    cases hrow : insertRow id row guide with
    | error e =>
      rw [hrow] at h
      cases h
    | ok guide₁ =>
      rw [hrow] at h
      obtain ⟨hother, hmem⟩ := ih h
      refine ⟨fun id' hne => (hother id' hne).trans (rowsOf_eq_of_insertRow hrow hne),
        fun start a => ?_⟩
      rw [hmem, lookup_insertRow hrow, List.mem_cons, or_assoc, or_left_comm]
      by_cases hstart : start = row.1
      · -- the row was not there
        have hnew : guide.lookup (id, start) = none := by
          rw [insertRow] at hrow
          split at hrow
          · cases hrow
          · next hnew => exact AList.lookup_eq_none.mpr (hstart ▸ hnew)
        rw [hnew, if_pos (by rw [hstart])]
        simp [Prod.ext_iff, hstart, eq_comm]
      · rw [if_neg fun heq => hstart (Prod.mk.inj heq).2, or_iff_right
          (show ¬((start, a) = row) from fun heq => hstart (congrArg Prod.fst heq))]

theorem ne_nil_of_mapM {f : String × Airing → Except String (String × Airing)}
    {rows copies : List (String × Airing)} (h : rows.mapM f = .ok copies) (hne : rows ≠ []) :
    copies ≠ [] := by
  obtain ⟨row, rows, rfl⟩ := List.exists_cons_of_ne_nil hne
  rw [List.mapM_cons] at h
  cases hrow : f row with
  | error e =>
    rw [hrow] at h
    cases h
  | ok copy =>
    cases hrows : rows.mapM f with
    | error e =>
      rw [hrow, hrows] at h
      cases h
    | ok copies' =>
      rw [hrow, hrows] at h
      obtain rfl := Except.ok.inj h
      exact List.cons_ne_nil _ _

def firstStart (copies : List (String × Airing)) : String := ((copies.map (·.1)).min?).getD ""

/-- A row that was listed for the channel is on after this. -/
def ListsOwn (guide : Guide) (id first : String) : Prop :=
  ∃ start a, guide.lookup (id, start) = some a ∧ a.derived = false ∧ first < a.stopUtc

/-- **The schedule of the East, three hours later**: nothing is done where the channel has a row of
its own in that time, and what is over by then stays. -/
def FollowsEast (clock : Clock) (guide guide' : Guide) (id : String) : Prop :=
  ∃ stem copies, westStem id = some stem ∧ copies ≠ [] ∧
    (eastRows guide' stem).mapM (copyOf clock) = .ok copies ∧
    (ListsOwn guide id (firstStart copies) ∧
      (∀ start, guide'.lookup (id, start) = guide.lookup (id, start)) ∨
    ¬ListsOwn guide id (firstStart copies) ∧ ∀ start a,
      guide'.lookup (id, start) = some a ↔ (start, a) ∈ copies ∨
        guide.lookup (id, start) = some a ∧ a.stopUtc ≤ firstStart copies)

theorem eq_of_westStem {id stem : String} (h : westStem id = some stem) :
    id = stem ++ "west.us" := by
  rw [westStem] at h
  split at h
  · next hmark =>
    obtain ⟨rest, hrest⟩ := List.isSuffixOf_iff_suffix.mp hmark.1
    obtain rfl := Option.some.inj h
    apply String.toList_injective
    rw [String.toList_append, String.toList_ofList, ← hrest]
    simp
  · cases h

theorem east_lt {id stem : String} (h : westStem id = some stem) :
    stem ++ ".us" < id ∧ stem ++ "east.us" < id := by
  rw [eq_of_westStem h]
  constructor <;> rw [String.lt_iff_toList_lt, String.toList_append, String.toList_append] <;>
    exact List.append_left_lt (by decide)

theorem eastRows_congr {guide guide' : Guide} {id stem : String} (h : westStem id = some stem)
    (hrows : ∀ id' < id, rowsOf guide' id' = rowsOf guide id') :
    eastRows guide' stem = eastRows guide stem := by
  rw [eastRows, eastRows, hrows _ (east_lt h).1, hrows _ (east_lt h).2]

/-- An identifier that gets a schedule of the West. -/
def Covered (fed : Finset String) (guide : Guide) (id : String) : Prop :=
  id ∉ fed ∧ ∃ stem, westStem id = some stem ∧ eastRows guide stem ≠ []

/-- **One identifier of the West** is passed over, or its schedule follows that of the East. -/
theorem deriveWest_follows {clock : Clock} {fed : Finset String} {id : String}
    {s s' : Guide × WestFeeds} (h : deriveWest clock fed id s = .ok s') :
    (¬Covered fed s.1 id ∧ s' = s) ∨ Covered fed s.1 id ∧ s'.2.ids = s.2.ids ++ [id] ∧
      (∀ id' ≠ id, rowsOf s'.1 id' = rowsOf s.1 id') ∧ FollowsEast clock s.1 s'.1 id := by
  rw [deriveWest] at h
  cases hstem : westStem id with
  | none =>
    rw [hstem] at h
    refine .inl ⟨?_, (Except.ok.inj h).symm⟩
    rintro ⟨-, stem, hstem', -⟩
    rw [hstem] at hstem'
    cases hstem'
  | some stem =>
    rw [hstem] at h
    dsimp only at h
    split at h
    · next hfed => exact .inl ⟨fun hcov => hcov.1 hfed, (Except.ok.inj h).symm⟩
    · next hfed =>
      split at h
      · next heast =>
        refine .inl ⟨?_, (Except.ok.inj h).symm⟩
        rintro ⟨-, stem', hstem', hrows⟩
        rw [hstem] at hstem'
        exact hrows (Option.some.inj hstem' ▸ heast)
      · next heast =>
        cases hcopies : (eastRows s.1 stem).mapM (copyOf clock) with
        | error e =>
          rw [hcopies] at h
          cases h
        | ok copies =>
          rw [hcopies] at h
          have hne := ne_nil_of_mapM hcopies heast
          simp only [bind, Except.bind] at h
          refine .inr ⟨⟨hfed, stem, hstem, heast⟩, ?_⟩
          split at h
          · -- it has rows of its own
            next hown =>
            obtain rfl := Except.ok.inj h
            obtain ⟨row, hrow, hlate⟩ := List.any_eq_true.mp hown
            rw [Bool.and_eq_true, Bool.not_eq_true', decide_eq_true_eq] at hlate
            exact ⟨rfl, fun _ _ => rfl, stem, copies, hstem, hne, hcopies,
              .inl ⟨⟨row.1, row.2, mem_rowsOf.mp hrow, hlate⟩, fun _ => rfl⟩⟩
          · next hown =>
            split at h
            · cases h
            · next guide hinsert =>
              obtain rfl := Except.ok.inj h
              obtain ⟨hother, hmem⟩ := lookup_insertRows hinsert
              have hrows : ∀ id' ≠ id, rowsOf guide id' = rowsOf s.1 id' := by
                rintro id' hid'
                rw [hother id' hid', rowsOf_retainRows]
                rintro key a rfl
                simp [hid']
              have hnone : ∀ start a, s.1.lookup (id, start) = some a → a.derived = false →
                  ¬firstStart copies < a.stopUtc := by
                rintro start a ha hd hlt
                refine hown (List.any_eq_true.mpr ⟨(start, a), mem_rowsOf.mpr ha, ?_⟩)
                show (!a.derived && decide (firstStart copies < a.stopUtc)) = true
                rw [hd, decide_eq_true hlt]
                rfl
              refine ⟨rfl, hrows, stem, copies, hstem, hne, ?_, .inr ⟨?_, fun start a => ?_⟩⟩
              · rw [eastRows_congr hstem fun id' hlt => hrows id' hlt.ne]
                exact hcopies
              · rintro ⟨start, a, ha, hd, hlt⟩
                exact hnone start a ha hd hlt
              · rw [hmem, Table.lookup_retainRows, Option.filter_eq_some_iff]
                refine or_congr_right (and_congr_right fun ha => ?_)
                have hown := hnone start a ha
                rw [← not_lt]
                change (!(decide (id = id) && a.derived && decide (firstStart copies < _))) = _ ↔ _
                cases hd : a.derived
                · simpa using hown hd
                · simp

/-- **The derivation so far**, of these identifiers. -/
structure WestDone (clock : Clock) (fed : Finset String) (guide : Guide) (ids : List String)
    (s : Guide × WestFeeds) : Prop where
  listed : ∀ id, id ∈ s.2.ids ↔ id ∈ ids ∧ Covered fed s.1 id
  others : ∀ id ∉ s.2.ids, rowsOf s.1 id = rowsOf guide id
  follows : ∀ id ∈ s.2.ids, FollowsEast clock guide s.1 id

theorem covered_congr {fed : Finset String} {guide guide' : Guide} {id : String}
    (hrows : ∀ id' < id, rowsOf guide' id' = rowsOf guide id') :
    Covered fed guide' id ↔ Covered fed guide id :=
  and_congr_right fun _ => exists_congr fun _ => and_congr_right fun hstem => by
    rw [eastRows_congr hstem hrows]

/-- What a later identifier changes is not the East of an earlier one. -/
theorem WestDone.step {clock : Clock} {fed : Finset String} {guide : Guide} {ids : List String}
    {id : String} {s s' : Guide × WestFeeds} (h : WestDone clock fed guide ids s)
    (hlast : ∀ id' ∈ ids, id' < id) (hstep : deriveWest clock fed id s = .ok s') :
    WestDone clock fed guide (ids ++ [id]) s' := by
  have hfresh : id ∉ s.2.ids := fun hid => (hlast id ((h.listed id).mp hid).1).ne rfl
  rcases deriveWest_follows hstep with ⟨hnot, rfl⟩ | ⟨hcov, hids, hrows, hfollows⟩
  · refine ⟨fun id' => (h.listed id').trans ?_, h.others, h.follows⟩
    rw [List.mem_append, List.mem_singleton, or_and_right]
    refine (or_iff_left ?_).symm
    rintro ⟨rfl, hcov⟩
    exact hnot hcov
  · have hbelow : ∀ id' ∈ ids, ∀ id'' < id', rowsOf s'.1 id'' = rowsOf s.1 id'' :=
      fun id' hid' id'' hlt => hrows id'' (hlt.trans (hlast id' hid')).ne
    constructor
    · rintro id'
      rw [hids, List.mem_append, List.mem_append, List.mem_singleton, h.listed, or_and_right]
      refine or_congr (and_congr_right fun hid' => (covered_congr (hbelow id' hid')).symm) ?_
      refine (and_iff_left_of_imp ?_).symm
      rintro rfl
      exact (covered_congr fun id'' hlt => hrows id'' hlt.ne).mpr hcov
    · rintro id' hid'
      rw [hids, List.mem_append, List.mem_singleton, not_or] at hid'
      exact (hrows id' hid'.2).trans (h.others id' hid'.1)
    · rintro id' hid'
      rw [hids, List.mem_append, List.mem_singleton] at hid'
      rcases hid' with hid' | rfl
      · -- an earlier one
        have hmem := ((h.listed id').mp hid').1
        obtain ⟨stem, copies, hstem, hne, hcopies, hcase⟩ := h.follows id' hid'
        refine ⟨stem, copies, hstem, hne, ?_, ?_⟩
        · rw [eastRows_congr hstem (hbelow id' hmem)]
          exact hcopies
        · simp only [lookup_eq_of_rowsOf (hrows id' (hlast id' hmem).ne)]
          exact hcase
      · have hsame := lookup_eq_of_rowsOf (h.others id' hfresh)
        obtain ⟨stem, copies, hstem, hne, hcopies, hcase⟩ := hfollows
        refine ⟨stem, copies, hstem, hne, hcopies, ?_⟩
        simpa only [ListsOwn, hsame] using hcase

theorem pairwise_listedIds (channels : Table ℤ Channel) :
    (listedIds channels).Pairwise (· < ·) := by
  have hnodup : (listedIds channels).Nodup :=
    (List.perm_insertionSort _ _).nodup_iff.mpr (List.nodup_dedup _)
  exact ((List.pairwise_insertionSort _ _).and hnodup).imp fun hle => lt_of_le_of_ne hle.1 hle.2

theorem westDone {clock : Clock} {fed : Finset String} {db db' : GuideDb} {west : WestFeeds}
    (h : deriveWestFeedEpg clock fed db = .ok (db', west)) :
    WestDone clock fed db.guide (listedIds db.channels) (db'.guide, west) ∧
      db'.channels = db.channels := by
  have hfold : ∀ {ids : List String} (done : List String) {s s' : Guide × WestFeeds},
      (done ++ ids).Pairwise (· < ·) → WestDone clock fed db.guide done s →
      ids.foldlM (fun s id => deriveWest clock fed id s) s = .ok s' →
      WestDone clock fed db.guide (done ++ ids) s' := by
    intro ids
    induction ids with
    | nil =>
      rintro done s s' - hs hfold
      obtain rfl := Except.ok.inj hfold
      rwa [List.append_nil]
    | cons id ids ih =>
      rintro done s s' hsorted hs hfold
      rw [List.foldlM_cons] at hfold
      cases hid : deriveWest clock fed id s with
      | error e =>
        rw [hid] at hfold
        cases hfold
      | ok s₁ =>
        rw [hid] at hfold
        have hlast := fun id' hid' =>
          (List.pairwise_append.mp hsorted).2.2 id' hid' id List.mem_cons_self
        rw [List.append_cons] at hsorted ⊢
        exact ih _ hsorted (hs.step hlast hid) hfold
  rw [deriveWestFeedEpg] at h
  cases hids : (listedIds db.channels).foldlM (fun s id => deriveWest clock fed id s)
      (db.guide, ⟨0, 0, []⟩) with
  | error e =>
    rw [hids] at h
    cases h
  | ok s =>
    rw [hids] at h
    obtain ⟨rfl, rfl⟩ := Prod.mk.inj (Except.ok.inj h)
    exact ⟨hfold [] (pairwise_listedIds _) ⟨fun id => by simp, fun _ _ => rfl,
      fun id hid => (by cases hid)⟩ hids, rfl⟩

/-- What the provider delivered is left alone. -/
theorem WestDone.frame {clock : Clock} {fed : Finset String} {guide : Guide} {ids : List String}
    {s : Guide × WestFeeds} (h : WestDone clock fed guide ids s) {id : String} (hid : id ∈ fed)
    (start : String) : s.1.lookup (id, start) = guide.lookup (id, start) :=
  lookup_eq_of_rowsOf (h.others id fun hmem => ((h.listed id).mp hmem).2.1 hid) start

/-- Each identifier that it tells of has rows. -/
theorem WestDone.hasRows {clock : Clock} {fed : Finset String} {guide : Guide} {ids : List String}
    {s : Guide × WestFeeds} (h : WestDone clock fed guide ids s) {id : String}
    (hid : id ∈ s.2.ids) : id ∉ fed ∧ (westStem id).isSome = true ∧ HasRows s.1 id := by
  obtain ⟨stem, copies, hstem, hne, -, hcase⟩ := h.follows id hid
  refine ⟨((h.listed id).mp hid).2.1, by rw [hstem]; rfl, ?_⟩
  rcases hcase with ⟨⟨start, a, ha, -⟩, hsame⟩ | ⟨-, hrows⟩
  · -- it has rows of its own
    exact ⟨start, a, (hsame start).trans ha⟩
  · obtain ⟨row, hrow⟩ := List.exists_mem_of_ne_nil copies hne
    exact ⟨row.1, row.2, (hrows row.1 row.2).mpr (.inl hrow)⟩

theorem Replaces.hasRows {v : Values} {rows : List Programme} {guide guide' : Guide}
    (h : Replaces v rows guide guide') {id : String} (hid : Delivers v rows id) :
    HasRows guide' id := by
  obtain ⟨start, a, ha⟩ := exists_lastAt hid
  obtain ⟨first, hfirst, -⟩ := earliest_le_of_lastAt ha
  exact ⟨start, a, (h.delivered id first hfirst start a).mpr (.inr ha)⟩

/-- **What the provider's step leaves**, of the rows that it delivers. -/
structure ProviderStep.Spec (v : Values) (rows : List Programme) (guide : Guide)
    (step : ProviderStep) : Prop where
  fed : ∀ id, id ∈ step.fed ↔ Delivers v rows id
  /-- Their schedules are the delivered ones. -/
  delivered : ∀ id ∈ step.fed, ∃ first, earliest rows id = some first ∧ ∀ start a,
    step.db.guide.lookup (id, start) = some a ↔
      guide.lookup (id, start) = some a ∧ a.stopUtc ≤ first ∨ lastAt v rows (id, start) = some a
  hasRows : ∀ id ∈ step.fed, HasRows step.db.guide id
  west : ∀ id ∈ step.west, id ∉ step.fed ∧ (westStem id).isSome = true ∧ HasRows step.db.guide id
  resolved : ∀ stream ch id, step.db.channels.lookup stream = some ch →
    ch.epgResolvedId = some id → id = "" ∨ id ∈ step.fed ∨ id ∈ step.west

variable {v : Values} {R : Rules}

theorem mem_of_resolveEpgChannels {defs : List ChannelDef} {feedWithEpg : Finset String}
    {db : GuideDb} {stream : ℤ} {ch : Channel} {id : String}
    (hch : (resolveEpgChannels v R defs feedWithEpg db).channels.lookup stream = some ch)
    (hid : ch.epgResolvedId = some id) : id = "" ∨ id ∈ feedWithEpg := by
  rw [resolveEpgChannels, Table.lookup_mapValues] at hch
  obtain ⟨ch₀, -, rfl⟩ := Option.map_eq_some_iff.mp hch
  have hsound := sound_buildEpgNameIndex (v := v) (R := R) defs feedWithEpg
  refine resolveEpgId_mem ?_ hid
  exact ⟨hsound.name, hsound.usName, hsound.idCallsign, hsound.nameCallsign,
    fun _ _ h => mem_feedWithEpg_of_catalogTvgIndex h⟩

theorem spec_refreshProvider {clock : Clock} {w : Window} {batches : List Batch} {db : GuideDb}
    {step : ProviderStep} (h : refreshProvider v R clock w (batches.map .batch) db = .ok step) :
    step.Spec v (delivered w batches) (dropStale w db.guide) := by
  rw [refreshProvider] at h
  split at h
  · cases h
  · next guide staged defs stored hingest =>
    obtain ⟨hreplaces, hids⟩ := replaces_of_ingestProvider hingest
    split at h
    · cases h
    · next db' west hwest =>
      obtain rfl := Except.ok.inj h
      have hdone := (westDone hwest).1
      have hdelivered : ∀ id ∈ staged.ids, ∃ first,
          earliest (delivered w batches) id = some first := by
        rintro id hid
        obtain ⟨start, a, ha⟩ := exists_lastAt ((hids id).mp hid)
        obtain ⟨first, hfirst, -⟩ := earliest_le_of_lastAt ha
        exact ⟨first, hfirst⟩
      constructor
      · exact hids
      · rintro id hid
        obtain ⟨first, hfirst⟩ := hdelivered id hid
        refine ⟨first, hfirst, fun start a => ?_⟩
        rw [← hreplaces.delivered id first hfirst start a, ← hdone.frame hid start]
        rfl
      · rintro id hid
        obtain ⟨start, a, ha⟩ := hreplaces.hasRows ((hids id).mp hid)
        exact ⟨start, a, (hdone.frame hid start).trans ha⟩
      · rintro id hid
        exact hdone.hasRows (List.mem_toFinset.mp hid)
      · rintro stream ch id hch hid
        rcases mem_of_resolveEpgChannels hch hid with hempty | hmem
        · exact .inl hempty
        · exact .inr (Finset.mem_union.mp hmem)

/-! ### One external feed -/

/-- What becomes of a channel: it stays, or it was unresolved and is resolved to an identifier that
some feed has delivered. -/
def Resolves (fed : Finset String) (ch ch' : Channel) : Prop :=
  ch' = ch ∨ isBlank ch.epgResolvedId = true ∧ ∃ id ∈ fed, ch'.epgResolvedId = some id

/-- **What a feed changes** of which these rows are stored. -/
structure Layered (v : Values) (rows : List Programme) (fed : Finset String) (db : GuideDb)
    (fed' : Finset String) (db' : GuideDb) : Prop where
  apart : ∀ row ∈ rows, row.channelId ∉ fed
  replaces : Replaces v rows db.guide db'.guide
  fed : ∀ id, id ∈ fed' ↔ id ∈ fed ∨ Delivers v rows id
  channels : ∃ f : ℤ → Channel → Channel, (∀ stream ch, Resolves fed' ch (f stream ch)) ∧
    ∀ stream, db'.channels.lookup stream = (db.channels.lookup stream).map (f stream)

/-- The stored rows of an identifier of the West are all that are delivered of it. -/
def TakesWest (w : Window) (fed west : Finset String) (rows : List Programme)
    (batches : List Batch) : Prop :=
  ∀ id ∈ west, id ∉ fed →
    rows.filter (·.channelId = id) = (delivered w batches).filter (·.channelId = id)

theorem receiveExternal_spec {w : Window} {fed west : Finset String} {channels : Table ℤ Channel}
    {batches : List Batch} {acc acc' : External} {rows : List Programme}
    (hrows : acc.stage.Reflects v rows)
    (h : receiveExternal v R w fed west channels acc (batches.map .batch) = .ok acc') :
    ∃ more, acc'.stage.Reflects v (rows ++ more) ∧ (∀ row ∈ more, row.channelId ∉ fed) ∧
      TakesWest w fed west more batches := by
  induction batches generalizing acc rows with
  | nil =>
    obtain rfl := Except.ok.inj h
    exact ⟨[], by rwa [List.append_nil], fun row hrow => (by cases hrow), fun _ _ _ => rfl⟩
  | cons b batches ih =>
    rw [List.map_cons, receiveExternal] at h
    dsimp only at h
    split at h
    · -- nothing but channels
      next hnone =>
      have hstage :
          ({ acc with defs := acc.defs ++ b.channels } : External).stage.Reflects v rows := hrows
      obtain ⟨more, hmore, hapart, htakes⟩ := ih hstage h
      refine ⟨more, hmore, hapart, fun id hid hfed => ?_⟩
      rw [htakes id hid hfed]
      simp [delivered, hnone]
    · have hstage := hrows.stageRows (p := takes w fed west
        (acc.candidates.getD (resolveAgainstExternal v R (acc.defs ++ b.channels) channels)).wanted)
        b.programmes acc.stored
      obtain ⟨more, hmore, hapart, htakes⟩ := ih hstage h
      refine ⟨_ ++ more, by rwa [← List.append_assoc], fun row hrow => ?_, fun id hid hfed => ?_⟩
      · rcases List.mem_append.mp hrow with hrow | hrow
        · have htake := (List.mem_filter.mp hrow).2
          simp only [takes, Bool.and_eq_true, decide_eq_true_eq] at htake
          exact htake.1.2
        · exact hapart row hrow
      · have hnow : delivered w (b :: batches) =
            b.programmes.filter w.admits ++ delivered w batches := by simp [delivered]
        rw [hnow, List.filter_append, List.filter_append, htakes id hid hfed, List.filter_filter,
          List.filter_filter]
        congr 1
        refine List.filter_congr fun row _ => ?_
        by_cases heq : row.channelId = id
        · simp [takes, heq, hid, hfed]
        · simp [heq]

theorem mem_of_mem_lastStops {guide : Guide} {ids : List String} {id : String}
    (h : id ∈ lastStops guide ids) : id ∈ ids := by
  have hfold : ∀ (ids : List String) (t : Table String String),
      id ∈ ids.foldl (fun t id =>
        match ((rowsOf guide id).map (·.2.stopUtc)).max? with
        | some stop => t.insert id stop
        | none => t) t → id ∈ ids ∨ id ∈ t := by
    intro ids
    induction ids with
    | nil => exact fun t ht => .inr ht
    | cons id' ids ih =>
      intro t ht
      rcases ih _ ht with hmem | hmem
      · exact .inl (List.mem_cons_of_mem _ hmem)
      · dsimp only at hmem
        split at hmem
        · rcases AList.mem_insert _ |>.mp hmem with rfl | hmem
          · exact .inl List.mem_cons_self
          · exact .inr hmem
        · exact .inr hmem
  exact (hfold ids ∅ h).resolve_right fun hmem => by cases hmem

theorem mem_of_mem_mappings {defs : List ChannelDef} {candidates : Option Candidates}
    {staged fed : Finset String} {guide : Guide} {row : ℤ × String}
    (h : row ∈ mappings v R defs candidates staged fed guide) : row.2 ∈ fed ∪ staged := by
  rw [mappings] at h
  obtain ⟨m, -, hm⟩ := List.mem_filterMap.mp h
  dsimp only at hm
  split at hm
  · next hback =>
    obtain rfl := Option.some.inj hm
    rw [Finset.mem_union]
    rcases hback with hstop | hstaged | hfed
    · have hmem := mem_of_mem_lastStops hstop
      rw [List.mem_eraseDups, List.mem_filter, Bool.or_eq_true, decide_eq_true_eq,
        decide_eq_true_eq] at hmem
      exact hmem.2.symm
    · exact .inr hstaged
    · exact .inl hfed
  · cases hm

theorem resolves_setUnresolved {fed : Finset String} :
    ∀ {rows : List (ℤ × String)} (channels : Table ℤ Channel), (∀ row ∈ rows, row.2 ∈ fed) →
      ∃ f : ℤ → Channel → Channel, (∀ stream ch, Resolves fed ch (f stream ch)) ∧
        ∀ stream, (rows.foldl setUnresolved channels).lookup stream =
          (channels.lookup stream).map (f stream)
  | [], channels, _ => ⟨fun _ ch => ch, fun _ _ => .inl rfl, fun stream => by simp⟩
  | row :: rows, channels, h => by
    have hrest : ∀ r ∈ rows, r.2 ∈ fed := fun r hr => h r (List.mem_cons_of_mem _ hr)
    obtain ⟨f, hf, hlookup⟩ := resolves_setUnresolved (setUnresolved channels row) hrest
    refine ⟨fun stream ch => f stream (if stream = row.1 then
      if isBlank ch.epgResolvedId then { ch with epgResolvedId := some row.2 } else ch else ch),
      fun stream ch => ?_, fun stream => ?_⟩
    · by_cases hstream : stream = row.1
      · by_cases hblank : isBlank ch.epgResolvedId = true
        · simp only [hstream, hblank, if_true]
          refine .inr ⟨hblank, ?_⟩
          rcases hf row.1 { ch with epgResolvedId := some row.2 } with heq | ⟨-, hid⟩
          · rw [heq]
            exact ⟨row.2, h row List.mem_cons_self, rfl⟩
          · exact hid
        · simp only [hstream, hblank, if_true]
          exact hf row.1 ch
      · simp only [hstream, if_false]
        exact hf stream ch
    · rw [List.foldl_cons, hlookup, setUnresolved, Table.lookup_modify, Option.map_map]
      rfl

/-- **One external feed that goes through.** -/
theorem layered_ingestExternal {w : Window} {west fed fed' : Finset String} {db db' : GuideDb}
    {batches : List Batch} {r : ExternalResult}
    (h : ingestExternal v R w west (batches.map .batch) fed db = (db', fed', r))
    (hok : r.ok = true) :
    ∃ rows, Layered v rows fed db fed' db' ∧ TakesWest w fed west rows batches := by
  rw [ingestExternal] at h
  split at h
  · obtain ⟨-, h⟩ := Prod.mk.inj h
    obtain ⟨-, rfl⟩ := Prod.mk.inj h
    cases hok
  · next acc hacc =>
    obtain ⟨rows, hrows, hapart, htakes⟩ := receiveExternal_spec Stage.reflects_new hacc
    rw [List.nil_append] at hrows
    split at h
    · obtain ⟨-, h⟩ := Prod.mk.inj h
      obtain ⟨-, rfl⟩ := Prod.mk.inj h
      cases hok
    · next guide staged hcommit =>
      simp only [Prod.mk.injEq] at h
      obtain ⟨rfl, rfl, -⟩ := h
      refine ⟨rows, ⟨hapart, hrows.replaces hcommit, fun id => ?_, ?_⟩, htakes⟩
      · rw [Finset.mem_union, hrows.ids_commit hcommit]
      · exact resolves_setUnresolved db.channels fun row hrow => mem_of_mem_mappings hrow

namespace Layered

variable {rows : List Programme} {fed fed' : Finset String} {db db' : GuideDb}

theorem lookup_of_fed (h : Layered v rows fed db fed' db') {id : String} (hid : id ∈ fed)
    (start : String) : db'.guide.lookup (id, start) = db.guide.lookup (id, start) :=
  h.replaces.others id (fun row hrow heq => h.apart row hrow (heq ▸ hid)) start

/-- **What feeds have delivered has rows.** -/
theorem hasRows (h : Layered v rows fed db fed' db') (hrows : ∀ id ∈ fed, HasRows db.guide id) :
    ∀ id ∈ fed', HasRows db'.guide id := by
  rintro id hid
  rcases (h.fed id).mp hid with hid | hid
  · obtain ⟨start, a, ha⟩ := hrows id hid
    exact ⟨start, a, (h.lookup_of_fed hid start).trans ha⟩
  · exact h.replaces.hasRows hid

/-- **The rows of an identifier of the West of which nothing is stored** are those that stop by
the first start that is delivered of it. -/
theorem lookup_of_filler (h : Layered v rows fed db fed' db') {id : String} (hid : id ∉ fed')
    (start : String) (a : Airing) : db'.guide.lookup (id, start) = some a ↔
      db.guide.lookup (id, start) = some a ∧
        ∀ first, earliest rows id = some first → a.stopUtc ≤ first := by
  cases hfirst : earliest rows id with
  | none =>
    rw [h.replaces.others id (earliest_eq_none.mp hfirst)]
    simp
  | some first =>
    rw [h.replaces.delivered id first hfirst]
    have hnone : lastAt v rows (id, start) ≠ some a := by
      intro hlast
      obtain ⟨row, hrow, htitle, hkey, -⟩ := exists_of_lastAt hlast
      exact hid ((h.fed id).mpr (.inr ⟨row, hrow, (Prod.mk.inj hkey).1, htitle⟩))
    simp [hnone]

end Layered

/-! ### All external feeds -/

theorem earliest_congr {rows rows' : List Programme} {id : String}
    (h : rows.filter (·.channelId = id) = rows'.filter (·.channelId = id)) :
    earliest rows id = earliest rows' id := by
  rw [earliest, earliest, h]

theorem delivers_iff {rows : List Programme} {id : String} : Delivers v rows id ↔
    ∃ row ∈ rows.filter (·.channelId = id), isPlaceholderTitle v row.title = false := by
  simp only [Delivers, List.mem_filter, decide_eq_true_eq, and_assoc]

/-- **What the external feeds change**, all of which go through. -/
structure LayeredAll (v : Values) (w : Window) (west : Finset String) (feeds : List (List Batch))
    (fed : Finset String) (db db' : GuideDb) : Prop where
  /-- Rows of what was delivered before stay as they are. -/
  frame : ∀ id ∈ fed, ∀ start, db'.guide.lookup (id, start) = db.guide.lookup (id, start)
  /-- A channel that was resolved stays so, and one that is resolved now has rows. -/
  channels : ∃ f : ℤ → Channel → Channel,
    (∀ stream, db'.channels.lookup stream = (db.channels.lookup stream).map (f stream)) ∧
    ∀ stream ch, f stream ch = ch ∨ isBlank ch.epgResolvedId = true ∧
      ∃ id, (f stream ch).epgResolvedId = some id ∧ HasRows db'.guide id
  /-- An identifier of the West has rows if some feed delivers it, or if a row of it stops before
  all that is delivered of it. -/
  west : ∀ id ∈ west, id ∉ fed → (HasRows db'.guide id ↔
    (∃ feed ∈ feeds, Delivers v (delivered w feed) id) ∨
      ∃ start a, db.guide.lookup (id, start) = some a ∧ ∀ feed ∈ feeds, ∀ first,
        earliest (delivered w feed) id = some first → a.stopUtc ≤ first)

theorem layeredAll {w : Window} {west : Finset String} :
    ∀ {feeds : List (List Batch)} {fed : Finset String} {db db' : GuideDb}
      {results : List ExternalResult}, (∀ id ∈ fed, HasRows db.guide id) →
      layer v R w west (feeds.map (·.map .batch)) (fed, db) = (db', results) →
      (∀ r ∈ results, r.ok = true) → LayeredAll v w west feeds fed db db'
  | [], fed, db, db', results, _, h, _ => by
    obtain ⟨rfl, -⟩ := Prod.mk.inj h
    refine ⟨fun _ _ _ => rfl, ⟨fun _ ch => ch, fun stream => by simp, fun _ _ => .inl rfl⟩,
      fun id _ _ => ?_⟩
    simp [HasRows]
  | feed :: feeds, fed, db, db', results, hrows, h, hok => by
    rw [List.map_cons, layer] at h
    obtain ⟨⟨db₁, fed₁, r⟩, hfirst⟩ : ∃ p,
        ingestExternal v R w west (feed.map .batch) fed db = p := ⟨_, rfl⟩
    obtain ⟨⟨db₂, results₂⟩, hlater⟩ : ∃ p,
        layer v R w west (feeds.map (·.map .batch)) (fed₁, db₁) = p := ⟨_, rfl⟩
    simp only [hfirst, hlater, Prod.mk.injEq] at h
    obtain ⟨rfl, rfl⟩ := h
    obtain ⟨rows, hlayer, htakes⟩ := layered_ingestExternal hfirst (hok r List.mem_cons_self)
    have hrows₁ := hlayer.hasRows hrows
    have hall := layeredAll hrows₁ hlater fun r' hr' => hok r' (List.mem_cons_of_mem _ hr')
    have hgrow : ∀ id ∈ fed, id ∈ fed₁ := fun id hid => (hlayer.fed id).mpr (.inl hid)
    -- what has been delivered keeps its rows to the end
    have hstay : ∀ id ∈ fed₁, HasRows db₂.guide id := by
      rintro id hid
      obtain ⟨start, a, ha⟩ := hrows₁ id hid
      exact ⟨start, a, (hall.frame id hid start).trans ha⟩
    refine ⟨fun id hid start => ?_, ?_, fun id hid hfed => ?_⟩
    · rw [hall.frame id (hgrow id hid) start, hlayer.lookup_of_fed hid start]
    · obtain ⟨f, hf, hlookup⟩ := hlayer.channels
      obtain ⟨g, hlookup', hg⟩ := hall.channels
      refine ⟨fun stream ch => g stream (f stream ch), fun stream => ?_, fun stream ch => ?_⟩
      · rw [hlookup', hlookup, Option.map_map]
        rfl
      · dsimp only
        rcases hg stream (f stream ch) with hsame | ⟨hblank, hnew⟩
        · rw [hsame]
          rcases hf stream ch with heq | ⟨hblank, id, hid, heq⟩
          · exact .inl heq
          · exact .inr ⟨hblank, id, heq, hstay id hid⟩
        · rcases hf stream ch with heq | ⟨hblank', -⟩
          · rw [heq] at hblank hnew ⊢
            exact .inr ⟨hblank, hnew⟩
          · exact .inr ⟨hblank', hnew⟩
    · have hsame := htakes id hid hfed
      have hdelivers : Delivers v rows id ↔ Delivers v (delivered w feed) id := by
        rw [delivers_iff, delivers_iff, hsame]
      by_cases hnow : Delivers v (delivered w feed) id
      · have hid₁ : id ∈ fed₁ := (hlayer.fed id).mpr (.inr (hdelivers.mpr hnow))
        exact ⟨fun _ => .inl ⟨feed, List.mem_cons_self, hnow⟩, fun _ => hstay id hid₁⟩
      · have hid₁ : id ∉ fed₁ := by
          rw [hlayer.fed, hdelivers]
          exact not_or.mpr ⟨hfed, hnow⟩
        rw [hall.west id hid hid₁]
        simp only [hlayer.lookup_of_filler hid₁, earliest_congr hsame, List.mem_cons,
          forall_eq_or_imp, exists_eq_or_imp, hnow, false_or, and_assoc]

/-! ### The refresh -/

theorem isBlank_of_westStem {id : String} (h : (westStem id).isSome = true) :
    isBlank (some id) = false := by
  rw [westStem] at h
  split at h
  · next hwest =>
    obtain ⟨front, hfront⟩ := List.isSuffixOf_iff_suffix.mp hwest.1
    have hmem : 'w' ∈ id.toList := hfront ▸ List.mem_append_right front (by decide)
    rw [isBlank, Option.all_some, Bool.eq_false_iff]
    intro hall
    exact absurd (List.all_eq_true.mp hall 'w' hmem) (by decide)
  · cases h

/-- **Resolved identifiers have programmes**: what a refresh promises. `rows` are what the provider
delivered, `guide` is what was stored before. -/
structure ResolvedHaveRows (v : Values) (rows : List Programme) (guide : Guide)
    (step : ProviderStep) (db : GuideDb) : Prop where
  hasRows : ∀ stream ch id, db.channels.lookup stream = some ch → ch.epgResolvedId = some id →
    id ≠ "" → HasRows db.guide id
  delivered : ∀ id, Delivers v rows id → ∃ first, earliest rows id = some first ∧ ∀ start a,
    db.guide.lookup (id, start) = some a ↔
      guide.lookup (id, start) = some a ∧ a.stopUtc ≤ first ∨ lastAt v rows (id, start) = some a
  /-- Empty means `COALESCE(NULLIF(TRIM(epg_resolved_id), ''), '') = ''`. -/
  unchanged : ∀ stream ch, step.db.channels.lookup stream = some ch →
    isBlank ch.epgResolvedId = false →
    ∃ ch', db.channels.lookup stream = some ch' ∧ ch'.epgResolvedId = ch.epgResolvedId

/-- **The West is left rows**: if a channel is resolved to an identifier of the West, some external
feed delivers it, or a row of it stops before the first start that each of them has of it. -/
def WestKept (v : Values) (w : Window) (step : ProviderStep) (feeds : List (List Batch)) : Prop :=
  ∀ stream ch id, step.db.channels.lookup stream = some ch → ch.epgResolvedId = some id →
    id ∈ step.west →
    (∃ feed ∈ feeds, Delivers v (delivered w feed) id) ∨
      ∃ start a, step.db.guide.lookup (id, start) = some a ∧ ∀ feed ∈ feeds, ∀ first,
        earliest (delivered w feed) id = some first → a.stopUtc ≤ first

/-- **Resolved identifiers have programmes if and only if the West is left rows**, in every refresh
all of whose feeds go through. -/
theorem resolvedHaveRows_iff {clock : Clock} {w : Window} {provider : List Batch}
    {externals : List (List Batch)} {db db' : GuideDb} {step : ProviderStep}
    {results : List ExternalResult} {stored : ℕ}
    (hstep : refreshProvider v R clock w (provider.map .batch) db = .ok step)
    (h : refresh v R clock w (provider.map .batch) (externals.map (·.map .batch)) db =
      .ok (db', results, stored)) (hok : ∀ r ∈ results, r.ok = true) :
    ResolvedHaveRows v (delivered w provider) (dropStale w db.guide) step db' ↔
      WestKept v w step externals := by
  have hspec := spec_refreshProvider hstep
  rw [refresh, hstep, Except.map] at h
  obtain ⟨⟨db₁, results₁⟩, hlayer⟩ : ∃ p,
      layer v R w step.west (externals.map (·.map .batch)) (step.fed, step.db) = p := ⟨_, rfl⟩
  simp only [hlayer, Except.ok.injEq, Prod.mk.injEq] at h
  obtain ⟨rfl, rfl, rfl⟩ := h
  obtain ⟨hframe, ⟨f, hlookup, hf⟩, hwest⟩ := layeredAll hspec.hasRows hlayer hok
  have hunchanged : ∀ stream ch, step.db.channels.lookup stream = some ch →
      isBlank ch.epgResolvedId = false → db₁.channels.lookup stream = some ch := by
    rintro stream ch hch hblank
    rw [hlookup, hch, Option.map_some]
    rcases hf stream ch with heq | ⟨hblank', -⟩
    · rw [heq]
    · rw [hblank] at hblank'
      cases hblank'
  constructor
  · rintro ⟨hrows, -, -⟩ stream ch id hch hid hmem
    obtain ⟨hfed, hstem, -⟩ := hspec.west id hmem
    have hblank : isBlank ch.epgResolvedId = false := by
      rw [hid]
      exact isBlank_of_westStem hstem
    refine (hwest id hmem hfed).mp (hrows stream ch id (hunchanged stream ch hch hblank) hid ?_)
    rintro rfl
    exact absurd hstem (by decide)
  · intro hkept
    refine ⟨fun stream ch' id hch' hid hne => ?_, fun id hid => ?_, fun stream ch hch hblank =>
      ⟨ch, hunchanged stream ch hch hblank, rfl⟩⟩
    · rw [hlookup] at hch'
      obtain ⟨ch, hch, rfl⟩ := Option.map_eq_some_iff.mp hch'
      rcases hf stream ch with heq | ⟨-, id', hid', hrows⟩
      · rw [heq] at hid
        rcases hspec.resolved stream ch id hch hid with hempty | hfed | hmem
        · exact absurd hempty hne
        · obtain ⟨start, a, ha⟩ := hspec.hasRows id hfed
          exact ⟨start, a, (hframe id hfed start).trans ha⟩
        · exact (hwest id hmem (hspec.west id hmem).1).mpr (hkept stream ch id hch hid hmem)
      · rwa [Option.some.inj (hid.symm.trans hid')]
    · have hfed := (hspec.fed id).mpr hid
      obtain ⟨first, hfirst, hrows⟩ := hspec.delivered id hfed
      refine ⟨first, hfirst, fun start a => ?_⟩
      rw [hframe id hfed start, hrows]

/-! ### Showtime West -/

def showtimeRules : Rules where
  normalizeChannelName _ := some "showtimewest"
  nameCallsigns _ := []
  idCallsigns _ := []
  idName _ := "showtimewest"
  isUs _ := true
  isUsId _ := true
  cinebox _ := false
  parseStation _ _ :=
    ⟨some "showtimewest", true, true, none, none, ["showtime"], "usshowtimewest", some "us"⟩
  rejects _ _ _ := false
  namesCity _ _ := false
  startsLike _ _ := true
  renamed key := key
  withoutEast key := key
  ranked _ _ _ ids := ids
  perm_ranked _ _ _ _ := .refl _

/-- Three hours after four and after six o'clock. -/
def showtimeClock : Clock where
  later s :=
    if s = "2026-10-15T04:00:00.000Z" then some "2026-10-15T07:00:00.000Z"
    else if s = "2026-10-15T06:00:00.000Z" then some "2026-10-15T09:00:00.000Z"
    else none

/-- The catalog: one channel, with its own tag. -/
def showtimeDb : GuideDb :=
  ⟨(∅ : Table ℤ Channel).insert 5866 ⟨"US Showtime West", some "showtimewest.us", none⟩, ∅⟩

/-- The provider has the schedule of the East only. -/
def showtimeEast : List Batch :=
  [⟨[⟨"showtime.us", "2026-10-15T04:00:00.000Z", "2026-10-15T06:00:00.000Z", some "Patriot Games",
    none⟩], []⟩]

/-- An external feed knows no more than that something will be on. -/
def showtimeFiller : List Batch :=
  [⟨[⟨"showtimewest.us", "2026-10-15T04:00:00.000Z", "2026-10-15T09:00:00.000Z",
    some "to be announced", none⟩], []⟩]

def showtimeProvider : Except (GuideDb × String) ProviderStep :=
  refreshProvider plainValues showtimeRules showtimeClock twoDays (showtimeEast.map .batch)
    showtimeDb

def showtimeRefresh : Except (GuideDb × String) (GuideDb × List ExternalResult × ℕ) :=
  refresh plainValues showtimeRules showtimeClock twoDays (showtimeEast.map .batch)
    ([showtimeFiller].map (·.map .batch)) showtimeDb

/-- **The channel is resolved to a feed of the West that filler has cleared.** -/
theorem not_resolvedHaveRows_filler : ¬∀ step db results stored, showtimeProvider = .ok step →
    showtimeRefresh = .ok (db, results, stored) → (∀ r ∈ results, r.ok = true) →
    ResolvedHaveRows plainValues (delivered twoDays showtimeEast)
      (dropStale twoDays showtimeDb.guide) step db := by
  intro h
  have hstep : showtimeProvider.toOption.isSome = true := rfl
  have hrun : showtimeRefresh.toOption.map (fun r =>
      ((r.1.channels.lookup 5866).map (·.epgResolvedId), rowsOf r.1.guide "showtimewest.us",
        r.2.1.all (·.ok))) = some (some (some "showtimewest.us"), [], true) := rfl
  cases hprovider : showtimeProvider with
  | error e =>
    rw [hprovider] at hstep
    cases hstep
  | ok step =>
    cases hrefresh : showtimeRefresh with
    | error e =>
      rw [hrefresh] at hrun
      cases hrun
    | ok r =>
      obtain ⟨db, results, stored⟩ := r
      rw [hrefresh] at hrun
      simp only [Except.toOption, Option.map_some, Option.some.injEq, Prod.mk.injEq,
        Option.map_eq_some_iff, List.all_eq_true] at hrun
      obtain ⟨⟨ch, hch, hid⟩, hnone, hok⟩ := hrun
      obtain ⟨start, a, ha⟩ := (h step db results stored hprovider hrefresh hok).hasRows 5866 ch
        "showtimewest.us" hch hid (by decide)
      have hmem := mem_rowsOf.mpr (show db.guide.lookup ("showtimewest.us", (start, a).1) =
        some (start, a).2 from ha)
      rw [hnone] at hmem
      cases hmem

/-- Where no external feed is configured, the copies stay. -/
theorem resolvedHaveRows_showtime : ∃ step db results stored,
    ResolvedHaveRows plainValues (delivered twoDays showtimeEast)
      (dropStale twoDays showtimeDb.guide) step db ∧
    refresh plainValues showtimeRules showtimeClock twoDays (showtimeEast.map .batch)
      (([] : List (List Batch)).map (·.map .batch)) showtimeDb = .ok (db, results, stored) := by
  have hstep : showtimeProvider.toOption.isSome = true := rfl
  cases hprovider : showtimeProvider with
  | error e =>
    rw [hprovider] at hstep
    cases hstep
  | ok step =>
    have hrefresh : refresh plainValues showtimeRules showtimeClock twoDays
        (showtimeEast.map .batch) (([] : List (List Batch)).map (·.map .batch)) showtimeDb =
        .ok (step.db, [], step.stored) := by
      rw [refresh, show refreshProvider plainValues showtimeRules showtimeClock twoDays
        (showtimeEast.map .batch) showtimeDb = .ok step from hprovider]
      rfl
    refine ⟨step, _, _, _, (resolvedHaveRows_iff hprovider hrefresh (by simp)).mpr ?_, hrefresh⟩
    rintro stream ch id - - hid
    obtain ⟨start, a, ha⟩ := ((spec_refreshProvider hprovider).west id hid).2.2
    exact .inr ⟨start, a, ha, by simp⟩

end EmeraldExchange.Iptv
