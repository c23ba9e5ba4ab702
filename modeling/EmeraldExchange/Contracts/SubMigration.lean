import EmeraldExchange.Lib.KeyedRows
import Mathlib.Data.Set.Image

/-!
# The namespace of old subjects

Rows that were written before subjects had a provider in front are given one by a migration of
either database. The subject is a part of the key of four of the five tables, so a row that is
renamed can meet one that the same user has written since: then the statement fails, and the
migration with it. Where no two rows meet it goes through, and the subjects are what they should be
(`migrations_iff`).
-/

namespace EmeraldExchange.Contracts.SubMigration

/-! ### Tables -/

/-- A row with a user and an item; what it has besides is not read. -/
structure Row (κ ν : Type) where
  sub : List Char
  item : κ
  rest : ν

def Row.key {κ ν : Type} (r : Row κ ν) : List Char × κ := (r.sub, r.item)

/-- **A table with a primary key.** -/
structure Table (κ ν : Type) where
  rows : List (Row κ ν)
  nodup : (rows.map Row.key).Nodup

/-- The tables of the channels' database that have users: the items have a kind and an id. -/
structure IptvDb (A H : Type) where
  favorites : Table (List Char × List Char) A
  watchHistory : Table (List Char × List Char) H

/-- The tables of the recommender's database that have users: the items have a kind and a number,
and a feedback has its signal too. The rows of the log have numbers of their own. -/
structure RecommenderDb (F S L : Type) where
  userFeedback : Table (List Char × ℤ × List Char) F
  recentlyShown : Table (List Char × ℤ) S
  recLog : List (Row (List Char × ℤ) L)

/-! ### What the code does -/

/-- `sub NOT LIKE '%:%'`: a text is compared up to a zero in it. -/
def notLikeColon (sub : List Char) : Bool := !(sub.takeWhile (· ≠ '\x00')).contains ':'

/-- `'plex:' || sub` -/
def plexSub (sub : List Char) : List Char := "plex:".toList ++ sub

section statements

variable {κ ν : Type} [DecidableEq κ]

/-- `SET sub = 'plex:' || sub`, of a row. -/
def Row.prefixed (r : Row κ ν) : Row κ ν := { r with sub := plexSub r.sub }

/-- **`UPDATE … SET sub = 'plex:' || sub WHERE sub NOT LIKE '%:%'`**, of a table with a key. -/
def Table.updateSub (t : Table κ ν) : Option (Table κ ν) :=
  (KeyedRows.update Row.key (fun r => notLikeColon r.sub) (fun r => some r.prefixed)
    t.rows).attach.map fun out => ⟨out.1, KeyedRows.nodup_update t.nodup out.2⟩

def Row.updated (r : Row κ ν) : Row κ ν := if notLikeColon r.sub then r.prefixed else r

variable {A H F S L : Type}

/-- **`0002_namespace_sub.sql`**, with nothing for an error. -/
def IptvDb.namespaceSub (db : IptvDb A H) : Option (IptvDb A H) := do
  let favorites ← db.favorites.updateSub
  let watchHistory ← db.watchHistory.updateSub
  return ⟨favorites, watchHistory⟩

/-- **`0006_namespace_sub.sql`**, with nothing for an error. -/
def RecommenderDb.namespaceSub (db : RecommenderDb F S L) : Option (RecommenderDb F S L) := do
  let userFeedback ← db.userFeedback.updateSub
  let recentlyShown ← db.recentlyShown.updateSub
  return ⟨userFeedback, recentlyShown, db.recLog.map Row.updated⟩

end statements

/-! ### What is asked for -/

def namespaced (sub : List Char) : List Char := if ':' ∈ sub then sub else plexSub sub

section spec

variable {κ ν A H F S L : Type}

def pairs (rows : List (Row κ ν)) : Set (List Char × κ) := { p | p ∈ rows.map Row.key }

/-- **Rows whose users have a provider now**, each the user of a row before. -/
structure Namespaced (before after : List (Row κ ν)) : Prop where
  colon : ∀ r ∈ after, ':' ∈ r.sub
  image : pairs after = (fun p => (namespaced p.1, p.2)) '' pairs before

/-- A migration goes through, and does what it is for. -/
def IptvDb.Migrates (db : IptvDb A H) : Prop :=
  ∃ out, db.namespaceSub = some out ∧
    Namespaced db.favorites.rows out.favorites.rows ∧
    Namespaced db.watchHistory.rows out.watchHistory.rows

@[inherit_doc IptvDb.Migrates]
def RecommenderDb.Migrates (db : RecommenderDb F S L) : Prop :=
  ∃ out, db.namespaceSub = some out ∧
    Namespaced db.userFeedback.rows out.userFeedback.rows ∧
    Namespaced db.recentlyShown.rows out.recentlyShown.rows ∧ Namespaced db.recLog out.recLog

def Apart (rows : List (Row κ ν)) : Prop :=
  ∀ r ∈ rows, ∀ s ∈ rows, notLikeColon r.sub = true → s.key ≠ r.prefixed.key

/-- No subject has its first colon behind a zero. -/
def Plain (rows : List (Row κ ν)) : Prop := ∀ r ∈ rows, notLikeColon r.sub = true → ':' ∉ r.sub

end spec

/-! ### The statements -/

section update

variable {κ ν : Type} {rows : List (Row κ ν)} {r s : Row κ ν}

theorem notLikeColon_plexSub (sub : List Char) : notLikeColon (plexSub sub) = false := by
  have htext : plexSub sub = 'p' :: 'l' :: 'e' :: 'x' :: ':' :: sub := rfl
  rw [htext]
  simp [notLikeColon]

theorem plexSub_injective : Function.Injective plexSub := fun _ _ h => List.append_cancel_left h

theorem colon_mem_of_like {sub : List Char} (h : notLikeColon sub = false) : ':' ∈ sub := by
  rw [notLikeColon, Bool.not_eq_false'] at h
  exact (List.takeWhile_subset _) (List.contains_iff_mem.mp h)

theorem updated_of_like (h : notLikeColon r.sub = false) : r.updated = r :=
  if_neg (Bool.eq_false_iff.mp h)

theorem updated_of_notLike (h : notLikeColon r.sub = true) : r.updated = r.prefixed := if_pos h

theorem nodup_updated_iff (h : (rows.map Row.key).Nodup) :
    ((rows.map Row.updated).map Row.key).Nodup ↔ Apart rows := by
  rw [List.map_map]
  constructor
  · intro hnodup r hr s hs hbare heq
    have hsub : s.sub = plexSub r.sub := congrArg Prod.fst heq
    have hlike : notLikeColon s.sub = false := by
      rw [hsub]
      exact notLikeColon_plexSub r.sub
    have hkeys : (Row.key ∘ Row.updated) s = (Row.key ∘ Row.updated) r := by
      rw [Function.comp_apply, Function.comp_apply, updated_of_like hlike, updated_of_notLike hbare,
        heq]
    obtain rfl := List.inj_on_of_nodup_map hnodup hs hr hkeys
    rw [hbare] at hlike
    cases hlike
  · intro hapart
    refine List.Nodup.map_on (fun r hr s hs heq => ?_) (List.Nodup.of_map _ h)
    rw [Function.comp_apply, Function.comp_apply] at heq
    refine List.inj_on_of_nodup_map h hr hs ?_
    rcases hbare : notLikeColon r.sub with _ | _ <;> rcases hbare' : notLikeColon s.sub with _ | _
    · rwa [updated_of_like hbare, updated_of_like hbare'] at heq
    · rw [updated_of_like hbare, updated_of_notLike hbare'] at heq
      exact absurd heq (hapart s hs r hr hbare')
    · rw [updated_of_notLike hbare, updated_of_like hbare'] at heq
      exact absurd heq.symm (hapart r hr s hs hbare)
    · rw [updated_of_notLike hbare, updated_of_notLike hbare'] at heq
      obtain ⟨hsub, hitem⟩ := Prod.mk.inj heq
      exact Prod.ext (plexSub_injective hsub) hitem

/-- **An update goes through if no row is met**, and only then. -/
theorem updateSub_eq_some [DecidableEq κ] {t out : Table κ ν} : t.updateSub = some out ↔
    out.rows = t.rows.map Row.updated ∧ Apart t.rows := by
  have hupdate : ∀ rows, KeyedRows.update Row.key (fun r => notLikeColon r.sub)
      (fun r => some r.prefixed) t.rows = some rows ↔
        rows = t.rows.map Row.updated ∧ Apart t.rows := by
    intro rows
    rw [← nodup_updated_iff t.nodup]
    refine KeyedRows.update_eq_some (fun r _ hr => congrArg some (updated_of_notLike hr).symm)
      (fun r _ hr => updated_of_like hr) t.nodup fun r _ s _ hr hs heq => ?_
    rw [updated_of_notLike hr] at heq
    have hsub : plexSub r.sub = s.sub := congrArg Prod.fst heq
    rw [← hsub, notLikeColon_plexSub] at hs
    cases hs
  obtain ⟨rows, hnodup⟩ := out
  rw [← hupdate, Table.updateSub, Option.map_eq_some_iff]
  constructor
  · rintro ⟨⟨rows', hrows⟩, -, heq⟩
    obtain rfl : rows' = rows := congrArg Table.rows heq
    exact hrows
  · intro hrows
    exact ⟨⟨rows, hrows⟩, Option.mem_attach _ _, rfl⟩

theorem namespaced_sub_updated (h : notLikeColon r.sub = true → ':' ∉ r.sub) :
    r.updated.key = (namespaced r.sub, r.item) := by
  rcases hbare : notLikeColon r.sub with _ | _
  · rw [updated_of_like hbare, namespaced, if_pos (colon_mem_of_like hbare)]
    rfl
  · rw [updated_of_notLike hbare, namespaced, if_neg (h hbare)]
    rfl

theorem colon_mem_updated (r : Row κ ν) : ':' ∈ r.updated.sub := by
  rcases hbare : notLikeColon r.sub with _ | _
  · rw [updated_of_like hbare]
    exact colon_mem_of_like hbare
  · rw [updated_of_notLike hbare]
    exact colon_mem_of_like (notLikeColon_plexSub r.sub)

/-- **Every subject has a provider, and the pairs are those before**, if no colon is hidden. -/
theorem namespaced_updated_iff : Namespaced rows (rows.map Row.updated) ↔ Plain rows := by
  constructor
  · intro h r hr hbare hcolon
    -- a row with a hidden colon is renamed, and no other gets its name
    have hmem : (r.sub, r.item) ∈ pairs (rows.map Row.updated) := by
      rw [h.image]
      exact ⟨r.key, List.mem_map_of_mem hr, by simp [Row.key, namespaced, hcolon]⟩
    obtain ⟨s', hs', hkey⟩ := List.mem_map.mp hmem
    obtain ⟨s, -, rfl⟩ := List.mem_map.mp hs'
    have hsub : s.updated.sub = r.sub := congrArg Prod.fst hkey
    have hlike : notLikeColon s.updated.sub = false := by
      rcases hs : notLikeColon s.sub with _ | _
      · rwa [updated_of_like hs]
      · rw [updated_of_notLike hs]
        exact notLikeColon_plexSub s.sub
    rw [hsub, hbare] at hlike
    cases hlike
  · intro h
    refine ⟨fun r' hr' => ?_, Set.ext fun p => ?_⟩
    · obtain ⟨r, -, rfl⟩ := List.mem_map.mp hr'
      exact colon_mem_updated r
    · constructor
      · intro hp
        obtain ⟨r', hr', rfl⟩ := List.mem_map.mp hp
        obtain ⟨r, hr, rfl⟩ := List.mem_map.mp hr'
        exact ⟨r.key, List.mem_map_of_mem hr, (namespaced_sub_updated (h r hr)).symm⟩
      · rintro ⟨q, hq, rfl⟩
        obtain ⟨r, hr, rfl⟩ := List.mem_map.mp hq
        exact List.mem_map.mpr ⟨r.updated, List.mem_map_of_mem hr,
          namespaced_sub_updated (h r hr)⟩

end update

/-! ### The migrations -/

variable {A H F S L : Type}

theorem exists_table {κ ν : Type} [DecidableEq κ] {t : Table κ ν} (h : Apart t.rows) :
    ∃ out, t.updateSub = some out ∧ out.rows = t.rows.map Row.updated := by
  refine ⟨⟨t.rows.map Row.updated, (nodup_updated_iff t.nodup).mpr h⟩, ?_, rfl⟩
  exact updateSub_eq_some.mpr ⟨rfl, h⟩

theorem iptv_migrates_iff (db : IptvDb A H) : db.Migrates ↔
    (Apart db.favorites.rows ∧ Plain db.favorites.rows) ∧
      Apart db.watchHistory.rows ∧ Plain db.watchHistory.rows := by
  constructor
  · rintro ⟨out, hout, hfavorites, hhistory⟩
    obtain ⟨favorites, hf, hout⟩ := Option.bind_eq_some_iff.mp hout
    obtain ⟨history, hh, hout⟩ := Option.bind_eq_some_iff.mp hout
    obtain rfl := Option.some.inj hout
    obtain ⟨hrows, hapart⟩ := updateSub_eq_some.mp hf
    obtain ⟨hrows', hapart'⟩ := updateSub_eq_some.mp hh
    simp only [hrows] at hfavorites
    simp only [hrows'] at hhistory
    exact ⟨⟨hapart, namespaced_updated_iff.mp hfavorites⟩, hapart',
      namespaced_updated_iff.mp hhistory⟩
  · rintro ⟨⟨hapart, hplain⟩, hapart', hplain'⟩
    obtain ⟨favorites, hf, hrows⟩ := exists_table hapart
    obtain ⟨history, hh, hrows'⟩ := exists_table hapart'
    refine ⟨⟨favorites, history⟩, ?_, ?_, ?_⟩
    · simp only [IptvDb.namespaceSub, hf, hh, Option.bind_eq_bind, Option.bind_some]
      rfl
    · rw [hrows]
      exact namespaced_updated_iff.mpr hplain
    · rw [hrows']
      exact namespaced_updated_iff.mpr hplain'

theorem recommender_migrates_iff (db : RecommenderDb F S L) : db.Migrates ↔
    (Apart db.userFeedback.rows ∧ Plain db.userFeedback.rows) ∧
      (Apart db.recentlyShown.rows ∧ Plain db.recentlyShown.rows) ∧ Plain db.recLog := by
  constructor
  · rintro ⟨out, hout, hfeedback, hshown, hlog⟩
    obtain ⟨feedback, hf, hout⟩ := Option.bind_eq_some_iff.mp hout
    obtain ⟨shown, hs, hout⟩ := Option.bind_eq_some_iff.mp hout
    obtain rfl := Option.some.inj hout
    obtain ⟨hrows, hapart⟩ := updateSub_eq_some.mp hf
    obtain ⟨hrows', hapart'⟩ := updateSub_eq_some.mp hs
    simp only [hrows] at hfeedback
    simp only [hrows'] at hshown
    exact ⟨⟨hapart, namespaced_updated_iff.mp hfeedback⟩,
      ⟨hapart', namespaced_updated_iff.mp hshown⟩, namespaced_updated_iff.mp hlog⟩
  · rintro ⟨⟨hapart, hplain⟩, ⟨hapart', hplain'⟩, hlog⟩
    obtain ⟨feedback, hf, hrows⟩ := exists_table hapart
    obtain ⟨shown, hs, hrows'⟩ := exists_table hapart'
    refine ⟨⟨feedback, shown, db.recLog.map Row.updated⟩, ?_, ?_, ?_,
      namespaced_updated_iff.mpr hlog⟩
    · simp only [RecommenderDb.namespaceSub, hf, hs, Option.bind_eq_bind, Option.bind_some]
      rfl
    · rw [hrows]
      exact namespaced_updated_iff.mpr hplain
    · rw [hrows']
      exact namespaced_updated_iff.mpr hplain'

/-- **The migrations go through, and do what they are for, if and only if** no row of a table with
a key has the key that another gets, and no subject hides its first colon behind a zero. -/
theorem migrations_iff (iptv : IptvDb A H) (recommender : RecommenderDb F S L) :
    (iptv.Migrates ↔ (Apart iptv.favorites.rows ∧ Plain iptv.favorites.rows) ∧
      Apart iptv.watchHistory.rows ∧ Plain iptv.watchHistory.rows) ∧
    (recommender.Migrates ↔
      (Apart recommender.userFeedback.rows ∧ Plain recommender.userFeedback.rows) ∧
        (Apart recommender.recentlyShown.rows ∧ Plain recommender.recentlyShown.rows) ∧
          Plain recommender.recLog) :=
  ⟨iptv_migrates_iff iptv, recommender_migrates_iff recommender⟩

/-- One user's favourite, from before the new logins and from after them. -/
def twice : IptvDb Unit Unit where
  favorites :=
    { rows := [⟨"123".toList, ("live".toList, "7".toList), ()⟩,
        ⟨"plex:123".toList, ("live".toList, "7".toList), ()⟩]
      nodup := by decide }
  watchHistory := ⟨[], List.nodup_nil⟩

/-- **The same favourite under both subjects**: the migration fails, and every start with it. -/
theorem not_migrates_twice : twice.namespaceSub = none ∧ ¬ twice.Migrates := by
  have hnone : twice.namespaceSub = none := by
    rcases h : twice.favorites.updateSub with _ | out
    · simp only [IptvDb.namespaceSub, h, Option.bind_eq_bind, Option.bind_none]
    · have hapart := (updateSub_eq_some.mp h).2
      exact absurd rfl (hapart _ List.mem_cons_self _
        (List.mem_cons_of_mem _ List.mem_cons_self) (by decide))
  refine ⟨hnone, ?_⟩
  rintro ⟨out, hout, -⟩
  rw [hnone] at hout
  cases hout

end EmeraldExchange.Contracts.SubMigration
