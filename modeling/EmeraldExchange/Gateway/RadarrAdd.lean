import EmeraldExchange.Gateway.Releases
import EmeraldExchange.Lib.Program

/-!
# Adding a movie

A movie is added to Radarr unmonitored, so that nothing is downloaded that is over the size cap, and
the gateway then searches and grabs a release itself. Where nothing can be grabbed yet the movie is
monitored after all, and where the search or the grab fails, or all releases are over the cap, it
is removed again.

Each of these is a call that may be refused, or time out with or without having had its effect
(`Answer`). The calls and the replies to them are kept as they
come, and so is what has become of the movie. How an add ends is in
`Gateway.RadarrEnds`.
-/

namespace EmeraldExchange.Gateway.RadarrAdd

open Auth Binary64 Releases

/-! ### Radarr -/

/-- A reply. Its body is a text, and the JSON in it if there is any. -/
structure Reply where
  status : ℕ
  valid : 100 ≤ status
  contentType : Option String
  text : String
  json : Except String JsonTree

def Reply.isSuccess (r : Reply) : Bool := 200 ≤ r.status && r.status < 300

def gatewayTimeout : ℕ := 504

theorem badGateway_valid : 100 ≤ 502 := by decide

/-- `auth_failure` -/
def authFailure (r : Reply) : Reply :=
  if r.status ≠ 401 then r
  else ⟨502, badGateway_valid, some "application/json",
    "\x7b\"error\":\"radarr_auth_failed\"\x7d", .ok (.obj [("error", .str "radarr_auth_failed")])⟩

/-- **A call**, with the identifier that is in its path. -/
inductive Call
  | addMovie (body : JsonTree)
  | lookup (tmdbId : ℕ)
  | search (movieId : JsonTree)
  | grab (release : JsonTree)
  | monitor (movieId body : JsonTree)
  | remove (movieId : JsonTree)

structure Movie where
  /-- Radarr has it. -/
  present : Bool
  /-- Radarr looks for releases of it. -/
  monitored : Bool
  /-- A release of it is queued. -/
  queued : Bool
  deriving DecidableEq

def monitoredIn (body : JsonTree) : Bool := (body.get "monitored").any truthy

def Call.effect : Call → Movie → Movie
  | .addMovie body, _ => ⟨true, monitoredIn body, false⟩
  | .lookup _, m | .search _, m => m
  | .grab _, m => { m with queued := true }
  | .monitor _ body, m => { m with monitored := monitoredIn body }
  | .remove _, m => { m with present := false }

/-- **How a call ends**: with a reply, and with or without its effect. Only a timeout leaves that
open. -/
structure Answer where
  reply : Reply
  took : Bool
  took_of_success : reply.isSuccess = true → took = true
  not_took_of_refused : reply.isSuccess = false → reply.status ≠ gatewayTimeout → took = false

structure World where
  /-- How the calls end, in their order. -/
  answers : ℕ → Answer
  calls : List (Call × Reply)
  movie : Movie
  /-- The signals that the recommender was sent. -/
  added : List JsonTree
  /-- The log of grabs. -/
  log : List JsonTree

def World.ask (w : World) (c : Call) : Reply × World :=
  let a := w.answers w.calls.length
  let r := authFailure a.reply
  (r, { w with
    calls := w.calls ++ [(c, r)]
    movie := if a.took then c.effect w.movie else w.movie })

/-- What the pipeline is told, and what it finds in the ledger of the folder. -/
structure Env where
  configured : Bool
  useLocalRecommender : Bool
  sub : String
  folderPath : String
  /-- The cap, as it is written and in bytes. -/
  capGb : JsonTree
  maxMovieBytes : Binary64
  minFree : Binary64
  availableBytes : Binary64
  reserve : Binary64 → Bool

variable (env : Env)

/-- `fetch`: nothing where Radarr is not configured. -/
def fetch (c : Call) : Program World (Option Reply) :=
  if env.configured then .act fun w => (some (w.ask c).1, (w.ask c).2) else pure none

def record (event : List (String × JsonTree)) : Program World Unit :=
  .act fun w => ((), { w with log := w.log ++ [.obj (("app", .str "radarr") :: event)] })

/-! ### Answers -/

inductive Payload
  | text (s : String)
  | json (v : JsonTree)

structure Response where
  status : ℕ
  contentType : String
  body : Payload

def Response.isSuccess (res : Response) : Bool := 200 ≤ res.status && res.status < 300

def Response.field (res : Response) (key : String) : Option JsonTree :=
  match res.body with
  | .json v => v.get key
  | .text _ => none

def err (status : ℕ) (body : List (String × JsonTree)) : Response :=
  ⟨status, "application/json", .json (.obj body)⟩

def relay (status : ℕ) (contentType : Option String) (body : Payload) : Response :=
  ⟨status, contentType.getD "application/json", body⟩

/-! ### What makes up for a grab -/

/-- The status of a failure, zero where no call was made. -/
def outcome : Option Reply → Except ℕ Unit
  | none => .error 0
  | some r => if r.isSuccess then .ok () else .error r.status

def identifier (movie : JsonTree) : Option JsonTree := (movie.get "id").filter truthy

/-- **`rollback`** -/
def rollback (movie : JsonTree) : Program World (Except ℕ Unit) :=
  match identifier movie with
  | none => pure (.error 0)
  | some id => do return outcome (← fetch env (.remove id))

/-- `rollback_status` -/
def rollbackStatus : Except ℕ Unit → Option ℕ
  | .ok _ => none
  | .error s => if s ≠ 0 then some s else none

/-- **`set_monitored`** -/
def setMonitored (movie : JsonTree) : Program World (Except ℕ Unit) :=
  match identifier movie with
  | none => pure (.error 0)
  | some id => do
    return outcome (← fetch env (.monitor id (movie.insert "monitored" (.bool true))))

/-- The status of a rollback that failed goes with the answer. -/
def withRollback (rolled : Except ℕ Unit) (body : List (String × JsonTree)) :
    List (String × JsonTree) :=
  match rollbackStatus rolled with
  | some s => body ++ [("rollbackStatus", .int s)]
  | none => body

/-! ### Which movie it is -/

/-- The record has an identifier and a title. -/
def usable (m : JsonTree) : Bool :=
  (m.get "id").any truthy &&
    ((m.get "title").bind JsonTree.asStr).any fun t => trimMatches jsSpace t.toList ≠ []

/-- The first record of a list, if it has an identifier. -/
def firstRecord (r : Reply) : Option JsonTree :=
  if r.isSuccess then do
    let first ← (← (← r.json.toOption).asArray).head?
    if (first.get "id").any truthy then some first else none
  else none

/-- `lookup_by_tmdb` -/
def lookupByTmdb (tmdbId : Option JsonTree) : Program World (Option JsonTree) :=
  match (tmdbId.bind asF64).bind safePositive with
  | none => pure none
  | some id => do return (← fetch env (.lookup id)).bind firstRecord

/-- **`recover_created`**: the record that was created, and the one that was fetched for it, if it
had to be. -/
def recoverCreated (out : Reply) (tmdbId : Option JsonTree) :
    Program World (Option JsonTree × Option JsonTree) :=
  let created := out.json.toOption
  if created.any usable then pure (created, none)
  else do
    let found ← lookupByTmdb env tmdbId
    return (found.or created, found)

def rollbackIdentified (created : Option JsonTree) : Program World (Except ℕ Unit) :=
  match created.filter fun c => (c.get "id").any truthy with
  | some c => rollback env c
  | none => pure (.ok ())

def isNull : JsonTree → Bool
  | .null => true
  | _ => false

/-- **`reject_unverified`** -/
def rejectUnverified (created title : Option JsonTree) : Program World Response := do
  let rolled ← rollbackIdentified env created
  let item := ((created.bind (·.get "id")).filter fun v => !isNull v).getD (.int 0)
  let titles := (title.filter fun t => t.asStr.isSome).toList.map fun t => ("title", t)
  record ([("itemId", item)] ++ titles ++ [("sub", .str env.sub), ("type", .str "grab_failed"),
    ("error", .str ("Radarr add returned success but the created movie could not be identified " ++
      "(unparseable/untitled response body and tmdbId re-fetch failed); " ++
      "cap-aware grab skipped"))])
  return err 502 (withRollback rolled [("error", .str "add_unverified"),
    ("message", .str ("Radarr accepted the add but did not identify the created movie, " ++
      "so no download was started. Check Radarr directly, then retry."))])

/-! ### The grab -/

/-- What comes of the grab; with the status of a failure, or the number of releases. -/
inductive Capped
  | succeeded
  | searchFailed (status : ℕ)
  | noReleases (scanned : ℕ)
  | noMatching (scanned : ℕ)
  | allRejectedByCap (scanned : ℕ)
  | grabFailed (status : ℕ)
  | grabUnconfirmed (scanned : ℕ)

/-- `arr_accepted` -/
def arrAccepted (r : JsonTree) : Bool :=
  !isTrue r "rejected" && !isTrue r "temporarilyRejected" && lt (.finite 0) (size r)

/-- A release is within the cap, and leaves the floor free. -/
def fits (r : JsonTree) : Bool :=
  le (size r) env.maxMovieBytes && le env.minFree (sub env.availableBytes (size r))

/-- The releases that may be grabbed, the best first. -/
def eligible (all : List JsonTree) : List JsonTree :=
  byQuality ((all.filter arrAccepted).filter (fits env))

/-- `grab_body` -/
def grabBody (r : JsonTree) : JsonTree :=
  .obj (["guid", "indexerId"].filterMap fun k => (r.get k).map fun v => (k, v))

def releaseList (r : Reply) : Except String (List JsonTree) :=
  match r.json with
  | .error message => .error message
  | .ok (.arr all) => .ok all
  | .ok _ => .error "release list is not an array"

def opt (key : String) (v : Option JsonTree) : List (String × JsonTree) :=
  v.toList.map fun v => (key, v)

/-- **The kind of a grab**: whether it was confirmed, with its name in the log. A timeout may have
queued the release. -/
def grabEvent (grab : Reply) (scanned : ℕ) : String × Capped :=
  if grab.isSuccess then ("grab_succeeded", .succeeded)
  else if grab.status = gatewayTimeout then ("grab_unconfirmed", .grabUnconfirmed scanned)
  else ("grab_failed", .grabFailed grab.status)

def nothingEligible (all : List JsonTree) : String × Capped :=
  if all.isEmpty then ("no_releases", .noReleases all.length)
  else if (all.filter arrAccepted).isEmpty then ("no_matching_releases", .noMatching all.length)
  else ("all_rejected_by_cap", .allRejectedByCap all.length)

def eventBase (item title : JsonTree) : List (String × JsonTree) :=
  [("itemId", item)] ++ opt "title" (some title |>.filter fun t => !isNull t) ++
    [("capGb", env.capGb), ("sub", .str env.sub)]

/-- Reserve the bytes of the best release, and grab it. -/
def grabRelease (base : List (String × JsonTree)) (all : List JsonTree) (best : JsonTree) :
    Program World (Except String Capped) := do
  let counts : List (String × JsonTree) :=
    [("scanned", .int all.length), ("eligible", .int (eligible env all).length)]
  if env.reserve (size best) then do
    let reply ← fetch env (.grab (grabBody best))
    match reply with
    | none => return .error "radarr is not configured"
    | some grab => do
      let (kind, out) := grabEvent grab all.length
      record (base ++ [("type", .str kind), ("status", .int grab.status)] ++ counts ++
        [("release", .obj (opt "title" (best.get "title") ++
          opt "sizeBytes" (best.get "size") ++ opt "qualityWeight" (best.get "qualityWeight")))])
      return .ok out
  else do
    record (base ++ [("type", .str "all_rejected_by_cap")] ++ counts ++
      [("error", .str ("planned movie grab would overcommit pending reservations for " ++
        env.folderPath))])
    return .ok (.allRejectedByCap all.length)

/-- **`grab_best_under_cap`** -/
def grabBestUnderCap (item title : JsonTree) : Program World (Except String Capped) := do
  let base := eventBase env item title
  record (base ++ [("type", .str "grab_started")])
  let reply ← fetch env (.search item)
  match reply with
  | none => return .error "radarr is not configured"
  | some res =>
    if res.isSuccess then
      match releaseList res with
      | .error message => return .error message
      | .ok all =>
        match (eligible env all).head? with
        | some best => grabRelease env base all best
        | none => do
          let (kind, out) := nothingEligible all
          record (base ++ [("type", .str kind), ("scanned", .int all.length),
            ("eligible", .int 0)])
          return .ok out
    else do
      record (base ++ [("type", .str "search_failed"), ("status", .int res.status)])
      return .ok (.searchFailed res.status)

/-! ### What becomes of the movie -/

/-- The movie is removed again, and why is answered. -/
def giveUp (created : JsonTree) (body : List (String × JsonTree)) :
    Program World (Option Response) := do
  let rolled ← rollback env created
  return some (err 424 (withRollback rolled body))

def giveUpFailed (created : JsonTree) (phase : String) (status : ℕ) :
    Program World (Option Response) :=
  giveUp env created [("error", .str "capped_grab_failed"), ("status", .int status),
    ("phase", .str phase), ("movie", created)]

/-- The movie is monitored instead of grabbed. -/
def keepMonitored (signalAdded : Program World Unit) (created : JsonTree) (phase : String)
    (scanned : ℕ) : Program World (Option Response) := do
  let flipped ← setMonitored env created
  match flipped with
  | .error status => return some (err 502 (
      [("error", .str "monitor_enable_failed"), ("phase", .str phase), ("scanned", .int scanned),
        ("movie", created)] ++ if status ≠ 0 then [("status", .int status)] else []))
  | .ok _ => do
    signalAdded
    return some ⟨200, "application/json", .json (.obj [("status", .str "monitoring"),
      ("phase", .str phase), ("scanned", .int scanned), ("monitored", .bool true),
      ("movie", created)])⟩

/-- **`settle_capped_grab`**: nothing where a grab is under way. -/
def settleCappedGrab (signalAdded : Program World Unit) (created : JsonTree) :
    Program World (Option Response) := do
  let item := (created.get "id").getD .null
  let title := (created.get "title").getD .null
  let grab ← grabBestUnderCap env item title
  match grab with
  | .error message => do
    record [("itemId", item), ("title", title), ("sub", .str env.sub),
      ("type", .str "grab_failed"), ("error", .str message)]
    giveUp env created [("error", .str "capped_grab_failed"), ("phase", .str "exception"),
      ("message", .str message)]
  | .ok .succeeded => return none
  | .ok (.searchFailed status) => giveUpFailed env created "search" status
  | .ok (.grabFailed status) => giveUpFailed env created "grab" status
  | .ok (.allRejectedByCap scanned) =>
    giveUp env created [("error", .str "capped_grab_not_started"),
      ("phase", .str "all_rejected_by_cap"), ("scanned", .int scanned), ("capGb", env.capGb),
      ("movie", created)]
  | .ok (.noReleases n) => keepMonitored env signalAdded created "no_releases" n
  | .ok (.noMatching n) => keepMonitored env signalAdded created "no_matching_releases" n
  | .ok (.grabUnconfirmed n) => keepMonitored env signalAdded created "grab_unconfirmed" n

/-- The signals of a movie that is kept: one, if there is a recommender and an identity. -/
def addedEvents (body : List (String × JsonTree)) : List JsonTree :=
  match (JsonTree.obj body).get "tmdbId" with
  | some tmdb =>
    if env.useLocalRecommender && tmdb.asNum.isSome then
      [.obj [("sub", .str env.sub), ("kind", .str "movie"), ("tmdb_id", tmdb),
        ("signal", .str "added")]]
    else []
  | none => []

/-- `signal_added` -/
def signalAdded (r : Reply) (body : List (String × JsonTree)) : Program World Unit :=
  .act fun w =>
    ((), { w with added := w.added ++ if r.isSuccess then addedEvents env body else [] })

/-- **`settle_add`** -/
def settleAdd (r : Reply) (body : List (String × JsonTree)) (wantedSearch : Bool) :
    Program World Response :=
  if r.isSuccess && wantedSearch then do
    let (created, refetched) ← recoverCreated env r ((JsonTree.obj body).get "tmdbId")
    match created.filter usable with
    | none => rejectUnverified env created ((JsonTree.obj body).get "title")
    | some movie => do
      let answer ← settleCappedGrab env (signalAdded env r body) movie
      match answer with
      | some res => return res
      | none => do
        signalAdded env r body
        return match refetched with
          | some m => relay r.status none (.json m)
          | none => relay r.status r.contentType (.text r.text)
  else do
    signalAdded env r body
    return relay r.status r.contentType (.text r.text)

/-- A search is wanted unless the caller says otherwise. -/
def wantedSearch (body : List (String × JsonTree)) : Bool :=
  match ((JsonTree.obj body).get "addOptions").bind (·.get "searchForMovie") with
  | some (.bool false) => false
  | _ => true

/-- What is sent to Radarr: its own spelling of the folder, not monitored where a search is wanted,
and no search of Radarr's own. -/
def cappedBody (body : List (String × JsonTree)) : List (String × JsonTree) :=
  let options := match (JsonTree.obj body).get "addOptions" with
    | some (.obj o) => o
    | _ => []
  body ++ [("rootFolderPath", .str env.folderPath)] ++
    (if wantedSearch body then [("monitored", .bool false)] else []) ++
    [("addOptions", .obj (options ++ [("searchForMovie", .bool false)]))]

/-- **`add_movie`**, once the request is let through and its folder is found to have room. -/
def addMovie (body : List (String × JsonTree)) : Program World Response := do
  let reply ← fetch env (.addMovie (.obj (cappedBody env body)))
  match reply with
  | none => return err 503 [("error", .str "radarr_not_configured")]
  | some r => settleAdd env r body (wantedSearch body)

end EmeraldExchange.Gateway.RadarrAdd
