import Mathlib.Data.Finset.Dedup
import Mathlib.Data.Finset.Empty
import Mathlib.Data.Finset.Insert
import EmeraldExchange.Iptv.GuideStage

/-!
# Which guide a channel shows

`crates/iptv/src/epg_resolve.rs`: a channel of the catalog is matched to an identifier of a feed by
its callsign, by its own tag, by the tag that streams of the same name carry, and by its name. Only
identifiers that have programmes are in the index, so that a channel is never matched to another
(`resolveEpgId_mem`).

What regular expressions make of names and identifiers is a parameter,
`Rules`.
-/

namespace EmeraldExchange.Iptv

/-- The fields of a channel that its resolution reads. -/
structure CatalogChannel where
  name : String
  epgChannelId : Option String
  deriving DecidableEq

structure Station where
  key : Option String
  us : Bool
  west : Bool
  network : Option String
  callsign : Option String
  words : List String
  letters : String
  tvgCountry : Option String

/-- **How names and identifiers are read.** -/
structure Rules where
  normalizeChannelName : String → Option String
  /-- `NAME_CALLSIGN` in a display name. -/
  nameCallsigns : String → List String
  /-- `ID_CALLSIGN` at the front of an identifier, with three letters and with four. -/
  idCallsigns : String → List String
  /-- An identifier without its `SHORT_SUFFIX`. -/
  idName : String → String
  isUs : String → Bool
  /-- `country_of(id) == Some("us")` -/
  isUsId : String → Bool
  cinebox : String → Bool
  parseStation : String → Option String → Station
  rejects : Station → String → Option String → Bool
  /-- Some word of the name is in the identifier. -/
  namesCity : Station → String → Bool
  /-- The identifier starts like the name. -/
  startsLike : String → String → Bool
  /-- `RENAMES` -/
  renamed : String → String
  /-- A name without a last `east`. -/
  withoutEast : String → String
  /-- The identifiers of a station, best first. -/
  ranked : Station → Table String String → Option String → List String → List String
  perm_ranked : ∀ st lastStop tvg ids, (ranked st lastStop tvg ids).Perm ids

/-- `epg_id` -/
def epgId (v : Values) (id : Option String) : Option String :=
  (id.map (normalizeEpgChannelId v)).filter (· ≠ "")

/-- **The index of a feed.** -/
structure EpgNameIndex where
  feedWithEpg : Finset String
  nameToFeedId : String → Option String
  usNameToFeedId : String → Option String
  idCallsigns : String → List String
  nameCallsigns : String → List String
  catalogTvg : String → Option String
  lastStop : Table String String

variable (v : Values) (R : Rules)

/-- The identifiers that were added under a key, each once. -/
def under (entries : List (String × String)) (key : String) : List String :=
  ((entries.filter (·.1 = key)).map (·.2)).eraseDups

def indexed (defs : List ChannelDef) (feedWithEpg : Finset String) : List (String × ChannelDef) :=
  defs.filterMap fun d => ((epgId v (some d.id)).filter (· ∈ feedWithEpg)).map (·, d)

/-- **`build_epg_name_index`** -/
def buildEpgNameIndex (defs : List ChannelDef) (feedWithEpg : Finset String) : EpgNameIndex :=
  let defs := indexed v defs feedWithEpg
  let collisions := defs.flatMap fun (id, d) =>
    (d.names.filterMap R.normalizeChannelName ++
      (R.normalizeChannelName (R.idName id)).toList).map (·, id)
  let us (name : String) := (under collisions name).filter R.isUsId
  { feedWithEpg
    nameToFeedId := fun name =>
      if (under collisions name).length = 1 then (under collisions name).head? else none
    usNameToFeedId := fun name =>
      if 1 < (under collisions name).length ∧ (us name).length = 1 then (us name).head? else none
    idCallsigns := under (defs.flatMap fun (id, _) => (R.idCallsigns id).map (·, id))
    nameCallsigns :=
      under (defs.flatMap fun (id, d) => (d.names.flatMap R.nameCallsigns).map (·, id))
    catalogTvg := fun _ => none
    lastStop := ∅ }

/-- **`catalog_tvg_index`**: the tag that streams of one name agree on. -/
def catalogTvgIndex (channels : List CatalogChannel) (feedWithEpg : Finset String)
    (key : String) : Option String :=
  let tvgs := channels.filterMap fun ch =>
    if R.normalizeChannelName ch.name = some key ∧ R.isUs ch.name then
      (epgId v ch.epgChannelId).filter (· ∈ feedWithEpg)
    else none
  if 1 < tvgs.length ∧ tvgs.all (some · = tvgs.head?) then tvgs.head? else none

/-- **`by_callsign`** -/
def byCallsign (st : Station) (index : EpgNameIndex) (tvg : Option String) : List String :=
  let callsign := st.callsign.getD ""
  let ranked (ids : List String) :=
    R.ranked st index.lastStop tvg (ids.filter fun id => !R.rejects st id none)
  let byId := ranked (index.idCallsigns callsign)
  if byId ≠ [] then byId
  else ranked ((index.nameCallsigns callsign).filter (R.namesCity st))

/-- `callsign_ids` -/
def callsignIds (channel : CatalogChannel) (index : EpgNameIndex) : List String :=
  let tvg := epgId v channel.epgChannelId
  let st := R.parseStation channel.name tvg
  if st.callsign.isSome then byCallsign R st index tvg else []

def byName (st : Station) (index : EpgNameIndex) (key : String) : Option String :=
  let keys := [key, R.withoutEast key]
  (keys.map R.renamed ++ keys).findSome? fun k =>
    let hit := (index.nameToFeedId k).or (if st.us then index.usNameToFeedId k else none)
    hit.filter fun hit => !R.rejects st hit (some k)

/-- **`resolve_epg_id`** -/
def resolveEpgId (channel : CatalogChannel) (index : EpgNameIndex) : Option String :=
  if R.cinebox channel.name then none
  else
    let tvg := epgId v channel.epgChannelId
    let st := R.parseStation channel.name tvg
    let callsign := if st.callsign.isSome then (byCallsign R st index tvg).head? else none
    let tagRefused := tvg.any fun t => R.rejects st t none
    let refused := if tagRefused then some "" else none
    let own := tvg.filter fun t => t ∈ index.feedWithEpg ∧ !tagRefused
    let sibling (key : String) :=
      if st.us then
        (index.catalogTvg key).filter fun s => R.startsLike s key && !R.rejects st s none
      else none
    callsign.or (own.or (match st.key with
      | none => refused
      | some key => (sibling key).or ((byName R st index key).or refused)))

/-! ### The identifiers of an index -/

/-- **An index is of the identifiers that have programmes.** -/
structure EpgNameIndex.Sound (index : EpgNameIndex) : Prop where
  name : ∀ key id, index.nameToFeedId key = some id → id ∈ index.feedWithEpg
  usName : ∀ key id, index.usNameToFeedId key = some id → id ∈ index.feedWithEpg
  idCallsign : ∀ key, ∀ id ∈ index.idCallsigns key, id ∈ index.feedWithEpg
  nameCallsign : ∀ key, ∀ id ∈ index.nameCallsigns key, id ∈ index.feedWithEpg
  tvg : ∀ key id, index.catalogTvg key = some id → id ∈ index.feedWithEpg

variable {v R}

theorem mem_under {entries : List (String × String)} {key id : String}
    (h : id ∈ under entries key) : (key, id) ∈ entries := by
  rw [under, List.mem_eraseDups, List.mem_map] at h
  obtain ⟨⟨k, i⟩, hmem, rfl⟩ := h
  rw [List.mem_filter, decide_eq_true_eq] at hmem
  obtain ⟨hmem, rfl⟩ := hmem
  exact hmem

theorem mem_indexed {defs : List ChannelDef} {feedWithEpg : Finset String}
    {p : String × ChannelDef} (h : p ∈ indexed v defs feedWithEpg) : p.1 ∈ feedWithEpg := by
  obtain ⟨d, -, hd⟩ := List.mem_filterMap.mp h
  obtain ⟨id, hid, rfl⟩ := Option.map_eq_some_iff.mp hd
  simpa using (Option.filter_eq_some_iff.mp hid).2

theorem ne_empty_of_epgId {id : Option String} {i : String} (h : epgId v id = some i) :
    i ≠ "" := by
  simpa using (Option.filter_eq_some_iff.mp h).2

theorem ne_empty_of_mem_indexed {defs : List ChannelDef} {feedWithEpg : Finset String}
    {p : String × ChannelDef} (h : p ∈ indexed v defs feedWithEpg) : p.1 ≠ "" := by
  obtain ⟨d, -, hd⟩ := List.mem_filterMap.mp h
  obtain ⟨id, hid, rfl⟩ := Option.map_eq_some_iff.mp hd
  exact ne_empty_of_epgId (Option.filter_eq_some_iff.mp hid).1

theorem exists_indexed_of_under {defs : List ChannelDef} {feedWithEpg : Finset String}
    {f : String × ChannelDef → List String} {key id : String}
    (h : id ∈ under ((indexed v defs feedWithEpg).flatMap fun p => (f p).map (·, p.1)) key) :
    ∃ p ∈ indexed v defs feedWithEpg, p.1 = id := by
  obtain ⟨p, hp, hmem⟩ := List.mem_flatMap.mp (mem_under h)
  obtain ⟨k, -, heq⟩ := List.mem_map.mp hmem
  exact ⟨p, hp, (Prod.mk.inj heq).2⟩

theorem mem_feedWithEpg_of_under {defs : List ChannelDef} {feedWithEpg : Finset String}
    {f : String × ChannelDef → List String} {key id : String}
    (h : id ∈ under ((indexed v defs feedWithEpg).flatMap fun p => (f p).map (·, p.1)) key) :
    id ∈ feedWithEpg := by
  obtain ⟨p, hp, rfl⟩ := exists_indexed_of_under h
  exact mem_indexed hp

theorem ne_empty_of_under {defs : List ChannelDef} {feedWithEpg : Finset String}
    {f : String × ChannelDef → List String} {key id : String}
    (h : id ∈ under ((indexed v defs feedWithEpg).flatMap fun p => (f p).map (·, p.1)) key) :
    id ≠ "" := by
  obtain ⟨p, hp, rfl⟩ := exists_indexed_of_under h
  exact ne_empty_of_mem_indexed hp

theorem sound_buildEpgNameIndex (defs : List ChannelDef) (feedWithEpg : Finset String) :
    (buildEpgNameIndex v R defs feedWithEpg).Sound where
  name key id h := by
    simp only [buildEpgNameIndex] at h
    split at h
    · exact mem_feedWithEpg_of_under (List.mem_of_head? h)
    · cases h
  usName key id h := by
    simp only [buildEpgNameIndex] at h
    split at h
    · exact mem_feedWithEpg_of_under (List.mem_of_mem_filter (List.mem_of_head? h))
    · cases h
  idCallsign key id h := mem_feedWithEpg_of_under h
  nameCallsign key id h := mem_feedWithEpg_of_under h
  tvg key id h := by cases h

theorem epgId_of_catalogTvgIndex {channels : List CatalogChannel} {feedWithEpg : Finset String}
    {key id : String} (h : catalogTvgIndex v R channels feedWithEpg key = some id) :
    id ∈ feedWithEpg ∧ ∃ ch ∈ channels, epgId v ch.epgChannelId = some id := by
  simp only [catalogTvgIndex] at h
  split at h
  · obtain ⟨ch, hmem, hch⟩ := List.mem_filterMap.mp (List.mem_of_head? h)
    split at hch
    · obtain ⟨hid, hfeed⟩ := Option.filter_eq_some_iff.mp hch
      exact ⟨by simpa using hfeed, ch, hmem, hid⟩
    · cases hch
  · cases h

theorem mem_feedWithEpg_of_catalogTvgIndex {channels : List CatalogChannel}
    {feedWithEpg : Finset String} {key id : String}
    (h : catalogTvgIndex v R channels feedWithEpg key = some id) : id ∈ feedWithEpg :=
  (epgId_of_catalogTvgIndex h).1

theorem of_mem_byCallsign {index : EpgNameIndex} {st : Station} {tvg : Option String}
    {id : String} (hid : id ∈ byCallsign R st index tvg) :
    (id ∈ index.idCallsigns (st.callsign.getD "") ∨
      id ∈ index.nameCallsigns (st.callsign.getD "")) ∧ R.rejects st id none = false := by
  simp only [byCallsign] at hid
  split at hid
  · obtain ⟨hmem, hkept⟩ := List.mem_filter.mp ((R.perm_ranked ..).mem_iff.mp hid)
    exact ⟨.inl hmem, by simpa using hkept⟩
  · obtain ⟨hmem, hkept⟩ := List.mem_filter.mp ((R.perm_ranked ..).mem_iff.mp hid)
    exact ⟨.inr (List.mem_of_mem_filter hmem), by simpa using hkept⟩

theorem mem_feedWithEpg_of_byCallsign {index : EpgNameIndex} (h : index.Sound) {st : Station}
    {tvg : Option String} {id : String} (hid : id ∈ byCallsign R st index tvg) :
    id ∈ index.feedWithEpg := by
  rcases (of_mem_byCallsign hid).1 with hmem | hmem
  · exact h.idCallsign _ id hmem
  · exact h.nameCallsign _ id hmem

/-- What is looked up as a name: any stream takes a name of one identifier, and a US stream a
name of several of which one is US. -/
def nameHit (st : Station) (index : EpgNameIndex) (k : String) : Option String :=
  (index.nameToFeedId k).or (if st.us then index.usNameToFeedId k else none)

/-- **Where an identifier comes from**: which tier answered it, and that the station does not
reject it there. -/
inductive Origin (R : Rules) (index : EpgNameIndex) (st : Station) (tvg : Option String)
    (id : String) : Prop
  /-- The station's callsign. -/
  | callsign (hid : id ∈ byCallsign R st index tvg) (accepted : R.rejects st id none = false)
  /-- The provider's own tag. -/
  | own (hid : tvg = some id) (hfeed : id ∈ index.feedWithEpg)
      (accepted : R.rejects st id none = false)
  /-- The tag that streams of its name carry. -/
  | sibling (key : String) (hid : index.catalogTvg key = some id)
      (accepted : R.rejects st id none = false)
  /-- A name. -/
  | name (k : String) (hid : nameHit st index k = some id)
      (accepted : R.rejects st id (some k) = false)

/-- **Every answer has an origin**, or is the empty one that stands for a refused tag. -/
theorem origin_of_resolveEpgId {index : EpgNameIndex} {channel : CatalogChannel} {id : String}
    (hid : resolveEpgId v R channel index = some id) :
    Origin R index (R.parseStation channel.name (epgId v channel.epgChannelId))
        (epgId v channel.epgChannelId) id ∨
      id = "" ∧ ∃ t, epgId v channel.epgChannelId = some t ∧
        R.rejects (R.parseStation channel.name (epgId v channel.epgChannelId)) t none = true := by
  rw [resolveEpgId] at hid
  split at hid
  · cases hid
  dsimp only at hid
  generalize epgId v channel.epgChannelId = tvg at hid ⊢
  generalize R.parseStation channel.name tvg = st at hid ⊢
  have hrefused : (if (tvg.any fun t => R.rejects st t none) = true then some "" else none) =
      some id → id = "" ∧ ∃ t, tvg = some t ∧ R.rejects st t none = true := by
    intro h
    split at h
    · next hany =>
      obtain ⟨t, ht, hrejects⟩ := (Option.any_eq_true _ _).mp hany
      exact ⟨(Option.some.inj h).symm, t, ht, hrejects⟩
    · cases h
  rcases Option.or_eq_some_iff.mp hid with hid | ⟨-, hid⟩
  · -- by callsign
    split at hid
    · have hmem := List.mem_of_head? hid
      exact .inl (.callsign hmem (of_mem_byCallsign hmem).2)
    · cases hid
  rcases Option.or_eq_some_iff.mp hid with hid | ⟨-, hid⟩
  · -- by its own tag
    obtain ⟨rfl, hown⟩ := Option.filter_eq_some_iff.mp hid
    rw [decide_eq_true_eq] at hown
    exact .inl (.own rfl hown.1 (by simpa using hown.2))
  split at hid
  · exact .inr (hrefused hid)
  next key hkey =>
  rcases Option.or_eq_some_iff.mp hid with hid | ⟨-, hid⟩
  · -- by the tag of its siblings
    split at hid
    · obtain ⟨hid, hkept⟩ := Option.filter_eq_some_iff.mp hid
      rw [Bool.and_eq_true] at hkept
      exact .inl (.sibling key hid (by simpa using hkept.2))
    · cases hid
  rcases Option.or_eq_some_iff.mp hid with hid | ⟨-, hid⟩
  · obtain ⟨k, -, hk⟩ := List.exists_of_findSome?_eq_some hid
    obtain ⟨hhit, hkept⟩ := Option.filter_eq_some_iff.mp hk
    exact .inl (.name k hhit (by simpa using hkept))
  · exact .inr (hrefused hid)

theorem Origin.mem_feedWithEpg {index : EpgNameIndex} (h : index.Sound) {st : Station}
    {tvg : Option String} {id : String} (horigin : Origin R index st tvg id) :
    id ∈ index.feedWithEpg := by
  rcases horigin with ⟨hid, -⟩ | ⟨-, hfeed, -⟩ | ⟨key, hid, -⟩ | ⟨k, hid, -⟩
  · exact mem_feedWithEpg_of_byCallsign h hid
  · exact hfeed
  · exact h.tvg key id hid
  · rcases Option.or_eq_some_iff.mp hid with hk | ⟨-, hk⟩
    · exact h.name k id hk
    · split at hk
      · exact h.usName k id hk
      · cases hk

/-- **A channel is resolved to an identifier that has programmes**, or its tag is refused. -/
theorem resolveEpgId_mem {index : EpgNameIndex} (h : index.Sound) {channel : CatalogChannel}
    {id : String} (hid : resolveEpgId v R channel index = some id) :
    id = "" ∨ id ∈ index.feedWithEpg := by
  rcases origin_of_resolveEpgId hid with horigin | ⟨hempty, -⟩
  · exact .inr (horigin.mem_feedWithEpg h)
  · exact .inl hempty

/-! ### The pair of indexes of a refresh -/

/-- The index of a feed with the tags of the catalog over the same identifiers. -/
def indexPair (v : Values) (R : Rules) (defs : List ChannelDef) (channels : List CatalogChannel)
    (feedWithEpg : Finset String) (lastStop : Table String String) : EpgNameIndex :=
  { buildEpgNameIndex v R defs feedWithEpg with
    catalogTvg := catalogTvgIndex v R channels feedWithEpg
    lastStop }

def nameIds (v : Values) (R : Rules) (defs : List ChannelDef) (feedWithEpg : Finset String)
    (name : String) : List String :=
  under ((indexed v defs feedWithEpg).flatMap fun p =>
    (p.2.names.filterMap R.normalizeChannelName ++
      (R.normalizeChannelName (R.idName p.1)).toList).map (·, p.1)) name

section pair

variable {defs : List ChannelDef} {channels : List CatalogChannel} {feedWithEpg : Finset String}
  {lastStop : Table String String} {st : Station} {tvg : Option String} {id : String}

theorem sound_indexPair : (indexPair v R defs channels feedWithEpg lastStop).Sound :=
  have h := sound_buildEpgNameIndex (v := v) (R := R) defs feedWithEpg
  ⟨h.name, h.usName, h.idCallsign, h.nameCallsign,
    fun _ _ h => mem_feedWithEpg_of_catalogTvgIndex h⟩

theorem eq_singleton_of_head? {l : List String} (hlen : l.length = 1) (h : l.head? = some id) :
    l = [id] := by
  obtain ⟨a, rfl⟩ := List.length_eq_one_iff.mp hlen
  rw [Option.some.inj h]

/-- **What a name answers**: its only identifier, or for a US stream the only US one of several. -/
theorem nameHit_indexPair {k : String}
    (h : nameHit st (indexPair v R defs channels feedWithEpg lastStop) k = some id) :
    nameIds v R defs feedWithEpg k = [id] ∨
      st.us = true ∧ 1 < (nameIds v R defs feedWithEpg k).length ∧
        (nameIds v R defs feedWithEpg k).filter R.isUsId = [id] := by
  have hname : ∀ i, (indexPair v R defs channels feedWithEpg lastStop).nameToFeedId k = some i →
      nameIds v R defs feedWithEpg k = [i] := by
    intro i hi
    obtain ⟨hlen, hhead⟩ := Option.ite_none_right_eq_some.mp hi
    exact eq_singleton_of_head? hlen hhead
  have hus : ∀ i, (indexPair v R defs channels feedWithEpg lastStop).usNameToFeedId k = some i →
      1 < (nameIds v R defs feedWithEpg k).length ∧
        (nameIds v R defs feedWithEpg k).filter R.isUsId = [i] := by
    intro i hi
    obtain ⟨⟨hmany, hone⟩, hhead⟩ := Option.ite_none_right_eq_some.mp hi
    exact ⟨hmany, eq_singleton_of_head? hone hhead⟩
  rcases Option.or_eq_some_iff.mp h with h | ⟨-, h⟩
  · exact .inl (hname id h)
  · split at h
    · next hst => exact .inr ⟨hst, hus id h⟩
    · cases h

theorem Origin.ne_empty {tag : Option String}
    (h : Origin R (indexPair v R defs channels feedWithEpg lastStop) st (epgId v tag) id) :
    id ≠ "" := by
  rcases h with ⟨hid, -⟩ | ⟨htvg, -, -⟩ | ⟨key, hid, -⟩ | ⟨k, hid, -⟩
  · rcases (of_mem_byCallsign hid).1 with hmem | hmem
    · exact ne_empty_of_under hmem
    · exact ne_empty_of_under hmem
  · exact ne_empty_of_epgId htvg
  · obtain ⟨-, ch, -, hch⟩ := epgId_of_catalogTvgIndex hid
    exact ne_empty_of_epgId hch
  · have hmem : id ∈ nameIds v R defs feedWithEpg k := by
      rcases nameHit_indexPair hid with hone | ⟨-, -, hone⟩
      · rw [hone]
        exact List.mem_singleton_self id
      · exact List.mem_of_mem_filter (hone ▸ List.mem_singleton_self id)
    exact ne_empty_of_under hmem

end pair

end EmeraldExchange.Iptv
