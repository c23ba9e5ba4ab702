import EmeraldExchange.Gateway.JsonStore
import EmeraldExchange.Gateway.Titles

/-!
# The household stores

Four stores are files of JSON: the likes and dislikes of each member, the titles that the household
has vetoed, the watch lists, and what the members may see. What is read is taken for what anybody
may have written: rows without a proper identifier are dropped and so is a second row of the same
one, texts are cleaned, and what is missing is filled in.
-/

namespace EmeraldExchange.Gateway

/-- The greatest integer up to which every integer is a float. -/
def maxSafe : ℕ := 9007199254740991

def positiveInt (v : JsonTree) : Option ℕ := do
  let n ← v.asNum
  if n.isInt ∧ 0 < n ∧ n ≤ maxSafe then some n.num.toNat else none

structure SafeId where
  val : ℕ
  pos : 0 < val
  le : val ≤ maxSafe

structure Sub where
  val : String
  ne : val ≠ ""

def strOf (v : Option JsonTree) : String := (v.bind JsonTree.asStr).getD ""

/-- Drop the rows whose identifier has come before. -/
def firstWins {α : Type} (id : α → ℕ) : List ℕ → List α → List α
  | _, [] => []
  | seen, e :: es =>
    if id e ∈ seen then firstWins id seen es else e :: firstWins id (id e :: seen) es

def rowsOf (v : Option JsonTree) : List JsonTree := (v.bind JsonTree.asArray).getD []

/-! ### Rows of an identifier and a title -/

/-- **A row**: an identifier alone, or with a title. -/
def normalizeIdTitle (v : JsonTree) : Option IdTitle :=
  match positiveInt v with
  | some id => some ⟨id, ""⟩
  | none => do
    let id ← positiveInt (← v.get "id")
    some ⟨id, sanitizeTitle (strOf (v.get "title"))⟩

def normalizeIdTitleList (v : Option JsonTree) : List IdTitle :=
  firstWins IdTitle.id [] ((rowsOf v).filterMap normalizeIdTitle)

def IdTitle.tree (e : IdTitle) : JsonTree := .obj [("id", .int e.id), ("title", .str e.title)]

def bySub {τ : Type} (f : JsonTree → τ) (raw : Raw) : IndexMap String τ :=
  raw.mapKeep (fun sub => sub ≠ "") f

def toRaw {τ : Type} (g : τ → JsonTree) (m : IndexMap String τ) : Raw := m.mapKeep (fun _ => true) g

/-! ### The signals -/

def parseKindLists (v : Option JsonTree) : KindLists where
  liked := normalizeIdTitleList (v.bind fun v => v.get "liked")
  disliked := normalizeIdTitleList (v.bind fun v => v.get "disliked")

def parseUserFeedback (v : JsonTree) : UserFeedback where
  movie := parseKindLists (v.get "movie")
  tv := parseKindLists (v.get "tv")

def KindLists.tree (lists : KindLists) : JsonTree :=
  .obj [("liked", .arr (lists.liked.map IdTitle.tree)),
    ("disliked", .arr (lists.disliked.map IdTitle.tree))]

def UserFeedback.tree (user : UserFeedback) : JsonTree :=
  .obj [("movie", user.movie.tree), ("tv", user.tv.tree)]

/-- The title of a like that is there; nothing else is touched. -/
def FeedbackFile.updateLikedTitleIfPresent (file : FeedbackFile) (sub : String) (kind : Kind)
    (id : ℕ) (title : String) : Option FeedbackFile :=
  let title := sanitizeTitle title
  if title = "" then none
  else do
    let user ← file.lookup sub
    let lists := user.kind kind
    let row ← lists.liked.find? fun e => e.id = id
    if row.title = title then none
    else
      let i := lists.liked.findIdx fun e => e.id = id
      let lists := { lists with liked := lists.liked.modify i fun e => { e with title } }
      some (Table.insert sub (user.setKind kind lists) file)

inductive FeedbackMutation
  | set (sub : Sub) (kind : Kind) (id : SafeId) (title : String) (next : Option Signal)
  | clearUser (sub : Sub)
  | updateLikedTitleIfPresent (sub : Sub) (kind : Kind) (id : SafeId) (title : String)

/-- **The signals of the members.** -/
def feedbackStore : JsonStore FeedbackFile FeedbackMutation where
  parse raw := (bySub parseUserFeedback raw).toTable
  serialize file := toRaw UserFeedback.tree (.ofTable file)
  apply
    | .set sub kind id title next, file => some (file.set sub.val kind id.val title next)
    | .clearUser sub, file => file.clearUser sub.val
    | .updateLikedTitleIfPresent sub kind id title, file =>
      file.updateLikedTitleIfPresent sub.val kind id.val title

/-! ### The veto -/

def parseRejections (raw : Raw) : Rejections where
  movie := normalizeIdTitleList (raw.lookup "movie")
  tv := normalizeIdTitleList (raw.lookup "tv")

def Rejections.updateTitleIfPresent (r : Rejections) (kind : Kind) (id : ℕ) (title : String) :
    Option Rejections :=
  let title := sanitizeTitle title
  if title = "" then none
  else do
    let row ← (r.kind kind).find? fun e => e.id = id
    if row.title = title then none
    else
      let i := (r.kind kind).findIdx fun e => e.id = id
      some (r.setKind kind ((r.kind kind).modify i fun e => { e with title }))

inductive RejectionsMutation
  | add (kind : Kind) (id : SafeId) (title : String)
  | updateTitleIfPresent (kind : Kind) (id : SafeId) (title : String)
  | remove (kind : Kind) (id : SafeId)

def Rejections.raw (r : Rejections) : Raw where
  entries := [("movie", .arr (r.movie.map IdTitle.tree)), ("tv", .arr (r.tv.map IdTitle.tree))]
  nodup := (by decide : ["movie", "tv"].Nodup)

/-- **The household veto.** -/
def rejectionsStore : JsonStore Rejections RejectionsMutation where
  parse := parseRejections
  serialize := Rejections.raw
  apply
    | .add kind id title, r => r.add kind id.val title
    | .updateTitleIfPresent kind id title, r => r.updateTitleIfPresent kind id.val title
    | .remove kind id, r => r.remove kind id.val

/-! ### The watch lists -/

structure WatchEntry where
  id : ℕ
  title : String
  addedAt : String
  posterPath : Option String
  deriving DecidableEq

structure UserWatchlist where
  movie : List WatchEntry
  tv : List WatchEntry
  deriving DecidableEq

namespace UserWatchlist

def empty : UserWatchlist := ⟨[], []⟩

def kind (w : UserWatchlist) : Kind → List WatchEntry
  | .movie => w.movie
  | .tv => w.tv

def setKind (w : UserWatchlist) (k : Kind) (rows : List WatchEntry) : UserWatchlist :=
  match k with
  | .movie => { w with movie := rows }
  | .tv => { w with tv := rows }

end UserWatchlist

abbrev WatchlistFile := IndexMap String UserWatchlist

def sanitizeWatchlistStr (raw : String) : String := cleanStr maxWatchlistStrLen raw

/-- A poster path, unless nothing is left of it. -/
def cleanPoster (raw : String) : Option String :=
  let poster := sanitizeWatchlistStr raw
  if poster = "" then none else some poster

def epoch : String := "1970-01-01T00:00:00.000Z"

def addedAtOf (v : Option JsonTree) : String := if strOf v = "" then epoch else strOf v

/-- **A row of a watch list.** -/
def normalizeWatchEntry (v : JsonTree) : Option WatchEntry := do
  let id ← positiveInt (← v.get "id")
  some ⟨id, sanitizeWatchlistStr (strOf (v.get "title")), addedAtOf (v.get "added_at"),
    cleanPoster (strOf (v.get "poster_path"))⟩

def normalizeWatchList (v : Option JsonTree) : List WatchEntry :=
  firstWins WatchEntry.id [] ((rowsOf v).filterMap normalizeWatchEntry)

def parseUserWatchlist (v : JsonTree) : UserWatchlist where
  movie := normalizeWatchList (v.get "movie")
  tv := normalizeWatchList (v.get "tv")

def WatchEntry.tree (e : WatchEntry) : JsonTree :=
  .obj ([("id", .int e.id), ("title", .str e.title), ("added_at", .str e.addedAt)] ++
    (e.posterPath.map fun p => ("poster_path", .str p)).toList)

def UserWatchlist.tree (w : UserWatchlist) : JsonTree :=
  .obj [("movie", .arr (w.movie.map WatchEntry.tree)), ("tv", .arr (w.tv.map WatchEntry.tree))]

/-- **Add a title to a watch list**; one that is there keeps its time. -/
def WatchlistFile.upsert (file : WatchlistFile) (sub : String) (kind : Kind) (id : ℕ)
    (title : String) (posterPath : Option String) (now : String) : WatchlistFile :=
  let title := sanitizeWatchlistStr title
  let poster := posterPath.bind cleanPoster
  let user := (file.lookup sub).getD .empty
  let rows := user.kind kind
  let rows := match rows.findIdx? fun e => e.id = id with
    | some i => rows.modify i fun e => { e with title, posterPath := poster }
    | none => rows ++ [⟨id, title, now, poster⟩]
  file.insert sub (user.setKind kind rows)

/-- Drop the entry of a member, if there is one. -/
def clearSub {τ : Type} (file : IndexMap String τ) (sub : String) : Option (IndexMap String τ) :=
  if (file.lookup sub).isSome then some (file.shiftRemove sub) else none

def WatchlistFile.remove (file : WatchlistFile) (sub : String) (kind : Kind) (id : ℕ) :
    Option WatchlistFile := do
  let user ← file.lookup sub
  let rows := (user.kind kind).filter fun e => e.id ≠ id
  if rows.length = (user.kind kind).length then none
  else some (file.insert sub (user.setKind kind rows))

inductive WatchlistMutation
  | upsert (sub : Sub) (kind : Kind) (id : SafeId) (title : String) (posterPath : Option String)
    (now : String) (hnow : now ≠ "")
  | clearUser (sub : Sub)
  | remove (sub : Sub) (kind : Kind) (id : SafeId)

/-- **The watch lists of the members.** -/
def watchlistStore : JsonStore WatchlistFile WatchlistMutation where
  parse := bySub parseUserWatchlist
  serialize := toRaw UserWatchlist.tree
  apply
    | .upsert sub kind id title posterPath now _, file =>
      some (file.upsert sub.val kind id.val title posterPath now)
    | .clearUser sub, file => clearSub file sub.val
    | .remove sub kind id, file => file.remove sub.val kind id.val

/-! ### The policies -/

def contentRatings : List String :=
  ["G", "PG", "PG-13", "R", "NC-17", "TV-Y", "TV-Y7", "TV-G", "TV-PG", "TV-14", "TV-MA"]

structure Sections where
  live : Bool
  downloads : Bool
  arr : Bool
  deriving DecidableEq

/-- **What a member may see**; none restricts nothing. -/
structure Policy where
  maxContentRating : Option { rating : String // rating ∈ contentRatings }
  allowedSections : Option Sections
  kid : Bool

abbrev PoliciesFile := IndexMap String Policy

def allowed (sections : JsonTree) (key : String) : Bool :=
  match sections.get key with
  | some (.bool false) => false
  | _ => true

def normalizeSections (v : Option JsonTree) : Option Sections :=
  match v with
  | some (.obj ms) =>
    some ⟨allowed (.obj ms) "live", allowed (.obj ms) "downloads", allowed (.obj ms) "arr"⟩
  | some (.arr vs) =>
    some ⟨allowed (.arr vs) "live", allowed (.arr vs) "downloads", allowed (.arr vs) "arr"⟩
  | _ => none

def normalizeRating (v : Option JsonTree) : Option { rating : String // rating ∈ contentRatings } :=
  match v.bind JsonTree.asStr with
  | some rating => if h : rating ∈ contentRatings then some ⟨rating, h⟩ else none
  | none => none

/-- **A policy**, whatever was written. -/
def normalizePolicy (v : JsonTree) : Policy where
  maxContentRating := normalizeRating (v.get "maxContentRating")
  allowedSections := normalizeSections (v.get "allowedSections")
  kid := match v.get "kid" with
    | some (.bool true) => true
    | _ => false

def Sections.tree (s : Sections) : JsonTree :=
  .obj [("live", .bool s.live), ("downloads", .bool s.downloads), ("arr", .bool s.arr)]

def Policy.tree (p : Policy) : JsonTree :=
  .obj [("maxContentRating", (p.maxContentRating.map fun r => JsonTree.str r.val).getD .null),
    ("allowedSections", (p.allowedSections.map Sections.tree).getD .null), ("kid", .bool p.kid)]

inductive PoliciesMutation
  | set (sub : Sub) (policy : Policy)
  | remove (sub : Sub)

/-- **What the members may see.** -/
def policiesStore : JsonStore PoliciesFile PoliciesMutation where
  parse := bySub normalizePolicy
  serialize := toRaw Policy.tree
  apply
    | .set sub policy, file => some (file.insert sub.val policy)
    | .remove sub, file => clearSub file sub.val

end EmeraldExchange.Gateway
