import EmeraldExchange.Lib.Words
import EmeraldExchange.Recommender.Events
import Mathlib.Data.Finset.Dedup
import Mathlib.Data.Finset.Empty
import Mathlib.Data.Finset.Filter
import Mathlib.Data.Finset.Lattice.Basic
import Mathlib.Data.List.DropRight
import Mathlib.Data.List.Sort
import Mathlib.Data.Rat.Init

/-!
# The context of a score

What a recipe is told of a household: its library, what it likes, dislikes and rejects, and what it
was shown of late. What a request lists stands in place of what is stored. Titles of one name are
found by their keys, which are the titles in lower case without punctuation; of what is owned the
key of what stands before a subtitle is kept too.

Of the tables there is what a score reads. An embedding is a number of numbers that only arithmetic
looks into; here it is there or is not.
-/

namespace EmeraldExchange.Recommender

open Words

def Kind.asStr : Kind → String
  | .movie => "movie"
  | .tv => "tv"

/-! ### The request -/

/-- A title of the library as a request lists it. -/
structure LibraryItem where
  tmdbId : Option ℤ
  title : Option String
  deriving DecidableEq

/-- **A validated request for a score.** Of each list, none means the stored rows. -/
structure Score where
  sub : String
  kind : Kind
  n : ℕ
  excludeRecentlyShown : Bool
  library : Option (List LibraryItem)
  feedback : Option (List (ℤ × String))
  householdRejections : Option (List ℤ)
  deriving DecidableEq

/-! ### The tables -/

/-- A row of `titles`; a popularity or a count of votes that is null counts as zero. -/
structure TitleRow where
  tmdbId : ℤ
  title : String
  year : Option ℤ
  posterPath : Option String
  overview : Option String
  popularity : ℚ
  voteCount : ℤ
  genreIds : List ℤ
  /-- It is out, and not cancelled before. -/
  available : Bool
  deriving DecidableEq

/-- **The titles of a kind**, each with its own identifier. -/
structure TitleTable where
  rows : List TitleRow
  nodup : (rows.map TitleRow.tmdbId).Nodup

def TitleTable.get (t : TitleTable) (id : ℤ) : Option TitleRow :=
  t.rows.find? fun r => r.tmdbId = id

/-- **What is stored.** -/
structure Store where
  titles : Kind → TitleTable
  /-- The titles that have an embedding, `title_features`. -/
  features : Kind → Finset ℤ
  /-- `title_vec`: the rows, and the kind of each. -/
  titleVec : Table ℤ Kind
  libraryItems : Kind → Finset ℤ
  householdRejections : Kind → Finset ℤ
  /-- The tables that the events write. -/
  events : Db

/-! ### Keys -/

/-- A character of a key: a small letter or a digit. -/
def keyChar (c : Char) : Bool := ('a' ≤ c && c ≤ 'z') || ('0' ≤ c && c ≤ '9')

/-- A character after others; the rest becomes one blank. -/
def pushKey (out : List Char) (c : Char) : List Char :=
  if keyChar c then out ++ [c] else if out.getLast? = some ' ' then out else out ++ [' ']

/-- **The key of a title**: lower case, runs of other characters to one blank, trimmed. -/
def normalizeTitleKey (title : List Char) : Option String :=
  let out := (toLowercase title).foldl pushKey []
  let key := (out.dropWhile (· = ' ')).rdropWhile (· = ' ')
  if key = [] then none else some (String.ofList key)

/-- The key of a title, and the keys of what stands before its subtitle. -/
def titleKeyVariants (title : String) : List String :=
  match normalizeTitleKey title.toList with
  | none => []
  | some key =>
    key :: [" - ", ": "].filterMap fun sep =>
      (splitOnce sep.toList title.toList).bind fun r => normalizeTitleKey r.1

theorem mem_titleKeyVariants {title key : String} (h : normalizeTitleKey title.toList = some key) :
    key ∈ titleKeyVariants title := by
  rw [titleKeyVariants, h]
  exact List.mem_cons_self

/-! ### The household -/

def Signal.asStr : Signal → String
  | .like => "like"
  | .dislike => "dislike"
  | .reject => "reject"
  | .clicked => "clicked"
  | .added => "added"
  | .watched => "watched"

def engagementFeedbackSignals : List String := ["clicked", "added", "watched"]

def positiveFeedbackSignals : List String := ["like", "clicked", "added", "watched"]

/-- **What a recipe is told of a household.** -/
structure UserContext where
  sub : String
  kind : Kind
  libraryIds : Finset ℤ
  libraryTitleKeys : Finset String
  /-- Those with an embedding; so below. -/
  libraryEmbeddings : Finset ℤ
  likedIds : Finset ℤ
  likedEmbeddings : Finset ℤ
  dislikedIds : Finset ℤ
  dislikedEmbeddings : Finset ℤ
  rejectedIds : Finset ℤ
  /-- Newest first. -/
  recentlyShownOrder : List ℤ

namespace UserContext

def recentlyShownIds (user : UserContext) : Finset ℤ := user.recentlyShownOrder.toFinset

/-- There is a mean of the embeddings of what is owned and liked, `positive_centroid`. -/
def hasPositives (user : UserContext) : Bool :=
  user.libraryEmbeddings ≠ ∅ || user.likedEmbeddings ≠ ∅

end UserContext

def Store.libraryIds (st : Store) (req : Score) : Finset ℤ :=
  match req.library with
  | some items => (items.filterMap LibraryItem.tmdbId).toFinset
  | none => st.libraryItems req.kind

def Store.loadTitleRows (st : Store) (kind : Kind) (ids : Finset ℤ) : List TitleRow :=
  (st.titles kind).rows.filter fun r => r.tmdbId ∈ ids

/-- What was shown in the last 30 days, newest first. -/
def Store.recentlyShown (st : Store) (sqlNow : ℤ) (req : Score) : List ℤ :=
  let rows := st.events.recentlyShown.entries.filter fun e =>
    e.1.sub = req.sub && e.1.kind = req.kind &&
      datetime sqlNow - recentlyShownRetentionDays * 86400 ≤ datetime e.2
  (rows.insertionSort fun a b => b.2 ≤ a.2).map fun e => e.1.tmdbId

def Store.stored (st : Store) (req : Score) (signals : List String) : Finset ℤ :=
  let rows := st.events.userFeedback.keys.filter fun k =>
    k.1.sub = req.sub && k.1.kind = req.kind && k.2.asStr ∈ signals
  (rows.map fun k => k.1.tmdbId).toFinset

/-- The titles of a list whose signal passes a test. -/
def pick (inline : List (ℤ × String)) (want : String → Bool) : Finset ℤ :=
  ((inline.filter fun e => want e.2).map Prod.fst).toFinset

/-- Likes, dislikes and rejections of a member: those of the request, if it has any, and what the
household did with titles that the request does not dislike or reject. -/
def Store.signals (st : Store) (req : Score) (storedEngagement : Bool) :
    Finset ℤ × Finset ℤ × Finset ℤ :=
  match req.feedback with
  | some inline =>
    let likes := pick inline fun s => s ∈ positiveFeedbackSignals
    let dislikes := pick inline fun s => s = "dislike"
    let rejects := pick inline fun s => s ≠ "dislike" && s ∉ positiveFeedbackSignals
    let engaged := (st.stored req engagementFeedbackSignals).filter fun id =>
      id ∉ dislikes ∧ id ∉ rejects
    (if storedEngagement then likes ∪ engaged else likes, dislikes, rejects)
  | none =>
    (st.stored req positiveFeedbackSignals, st.stored req ["dislike"], st.stored req ["reject"])

/-- **Build the context of a score.** -/
def loadUserContext (st : Store) (sqlNow : ℤ) (req : Score) (storedEngagement : Bool) :
    UserContext :=
  let kind := req.kind
  let libraryIds := st.libraryIds req
  let requested := (req.library.getD []).flatMap fun i => i.title.elim [] titleKeyVariants
  let titled := (st.loadTitleRows kind libraryIds).flatMap fun t => titleKeyVariants t.title
  let (likedIds, dislikedIds, rejectFromFeedback) := st.signals req storedEngagement
  let rejected := match req.householdRejections with
    | some ids => ids.toFinset
    | none => st.householdRejections kind
  { sub := req.sub
    kind := kind
    libraryIds := libraryIds
    libraryTitleKeys := (requested ++ titled).toFinset
    libraryEmbeddings := libraryIds ∩ st.features kind
    likedIds := likedIds
    likedEmbeddings := likedIds ∩ st.features kind
    dislikedIds := dislikedIds
    dislikedEmbeddings := dislikedIds ∩ st.features kind
    rejectedIds := rejected ∪ rejectFromFeedback
    recentlyShownOrder := if req.excludeRecentlyShown then st.recentlyShown sqlNow req else [] }

/-! ### What is owned -/

/-- **The keys of what is owned**, as it is titled in the request or in the catalog. -/
def Store.ownedKeys (st : Store) (req : Score) : Finset String :=
  (((req.library.getD []).filterMap fun i => i.title.bind fun t => normalizeTitleKey t.toList) ++
    (st.loadTitleRows req.kind (st.libraryIds req)).filterMap fun t =>
      normalizeTitleKey t.title.toList).toFinset

/-- **The context has them all.** -/
theorem ownedKeys_subset (st : Store) (sqlNow : ℤ) (req : Score) (storedEngagement : Bool) :
    st.ownedKeys req ⊆ (loadUserContext st sqlNow req storedEngagement).libraryTitleKeys := by
  intro key hkey
  rw [Store.ownedKeys, List.mem_toFinset, List.mem_append] at hkey
  show key ∈ List.toFinset _
  rw [List.mem_toFinset, List.mem_append, List.mem_flatMap, List.mem_flatMap]
  rcases hkey with h | h
  · obtain ⟨i, hi, h⟩ := List.mem_filterMap.mp h
    obtain ⟨t, ht, h⟩ := Option.bind_eq_some_iff.mp h
    refine .inl ⟨i, hi, ?_⟩
    rw [ht]
    exact mem_titleKeyVariants h
  · obtain ⟨t, ht, h⟩ := List.mem_filterMap.mp h
    exact .inr ⟨t, ht, mem_titleKeyVariants h⟩

end EmeraldExchange.Recommender
