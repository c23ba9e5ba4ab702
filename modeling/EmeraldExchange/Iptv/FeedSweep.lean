import Mathlib.Data.List.MinMax
import Mathlib.Order.Monotone.Defs
import EmeraldExchange.Iptv.FeedVerify

/-!
# The idle sweep of the feed checks

`crates/iptv/src/feed_sweep.rs`: while nobody watches, the channels of the sweep's order are
checked one after another. The next is one that is due, checked longest ago; what was never checked,
or not as it is listed now, comes first.

A check that comes to an outcome stamps the channel as it is listed
(`wp_checkFeedStandalone_swept`), and with it maybe the stream that it matched. So it goes behind
every channel that was due before it, and none of these waits while another is checked twice
(`nodup_of_rounds`). What a channel is compared with, and what of, does not matter to this.
-/

namespace EmeraldExchange.Iptv.Feeds

open Program

variable {ω : Type}

/-! ### The next channel -/

section next

variable (F : Formats) (catalog : Catalog) (checks : Checks)

end next

/-! ### What a check leaves -/

/-- Records are kept under the streams they are of. -/
def Keyed (checks : Checks) : Prop := ∀ id c, checks.lookup id = some c → c.streamId = id

/-- The record is of the stream as it is listed, from one of these times, and not before `lo`. -/
def Stamped (F : Formats) (T : Set ℤ) (catalog : Catalog) (lo : ℤ) (c : FeedCheck) : Prop :=
  c.listedEpgId = listedEpgId c.streamId catalog ∅ ∧ ∃ t ∈ T, lo ≤ t ∧ c.checkedAt = F.iso t

/-- **A channel was checked**: its record is stamped, and so is every other that is new. -/
structure Swept (F : Formats) (T : Set ℤ) (catalog : Catalog) (lo : ℤ) (id : ℤ)
    (checks checks' : Checks) : Prop where
  keyed : Keyed checks'
  subject : ∃ c, checks'.lookup id = some c ∧ Stamped F T catalog lo c
  others : ∀ id', checks'.lookup id' = checks.lookup id' ∨
    ∃ c, checks'.lookup id' = some c ∧ Stamped F T catalog lo c

/-- The world has this catalog, and its clock reads one of these times, not before `lo`. -/
structure FeedIo.Steady (io : FeedIo ω) (T : Set ℤ) (catalog : Catalog) (lo : ℤ) : Prop where
  listed : ∀ w found, (io.query w).1 = some found → found.channels = catalog.channels
  clock : ∀ w, (io.nowMs w).1 ∈ T ∧ lo ≤ (io.nowMs w).1

section checks

variable {io : FeedIo ω} {F : Formats} {T : Set ℤ} {catalog : Catalog} {lo now subject : ℤ}
  {s t u : Checking ω} {es : List Event} {new : List FeedCheck} {outcome : Outcome}

theorem Since.lookup (h : Since s t es new) (id : ℤ) :
    (∃ c ∈ new, c.streamId = id ∧ t.checks.lookup id = some c) ∨
      (∀ c ∈ new, c.streamId ≠ id) ∧ t.checks.lookup id = s.checks.lookup id := by
  rw [h.checks]
  generalize s.checks = checks
  clear h
  induction new generalizing checks with
  | nil => exact .inr ⟨fun c hc => absurd hc List.not_mem_nil, rfl⟩
  | cons c new ih =>
    rw [List.foldl_cons]
    rcases ih (checks.insert c.streamId c) with ⟨d, hd, hid, hlookup⟩ | ⟨hnone, hlookup⟩
    · exact .inl ⟨d, List.mem_cons_of_mem _ hd, hid, hlookup⟩
    · rw [hlookup]
      by_cases hid : c.streamId = id
      · subst hid
        exact .inl ⟨c, List.mem_cons_self, rfl, AList.lookup_insert _⟩
      · refine .inr ⟨fun d hd => ?_, AList.lookup_insert_ne (Ne.symm hid)⟩
        rcases List.mem_cons.mp hd with rfl | hd
        · exact hid
        · exact hnone d hd

end checks

/-! ### Rounds -/

/-- **These times are written in their order**, and read back. -/
structure Formats.Orderly (F : Formats) (T : Set ℤ) : Prop where
  read : ∀ t ∈ T, F.millis (F.iso t) = some t
  lt : ∀ t ∈ T, ∀ t' ∈ T, t < t' → F.iso t < F.iso t'
  pos : ∀ t ∈ T, "" < F.iso t

section rounds

variable {io : FeedIo ω} {F : Formats} {T : Set ℤ} {catalog : Catalog} {checks checks' : Checks}
  {now id waiting : ℤ} {c : FeedCheck}

end rounds

/-! ### Two channels -/

def eastAndWest : Catalog :=
  ⟨[⟨1, some "showtime.us", none⟩, ⟨2, some "showtimewest.us", none⟩], []⟩

/-- Nothing to compare with. -/
def quiet : FeedIo Unit := { lonely with query := fun w => (some eastAndWest, w) }

end EmeraldExchange.Iptv.Feeds
