import Mathlib.Data.List.Perm.Basic
import EmeraldExchange.Iptv.FeedListings
import EmeraldExchange.Lib.Program

/-!
# Which channel a stream carries

`crates/iptv/src/feed_verify.rs`: the picture of a stream is compared with those of other streams,
one after another, until one clearly matches. What a check has found is written down for the
stream, and for the stream it matched.

A check asks the world for captures, for the time and for what the tables hold
(`FeedIo`), and the world may change with each question; what comes
back is arbitrary, and so is the list of candidates. The comparison goes through them by turns
(`tryCandidate`): a turn ends it, or drops the candidate, or finds it
different. A skipped sibling brings the next one to the front, so the order of the queue changes
while it shrinks.
-/

namespace EmeraldExchange.Iptv.Feeds

open Program

/-! ### The world of a check -/

inductive Role
  | sibling
  | family
  deriving DecidableEq

/-- **A stream to compare with**, and the guide identifier it is listed under. -/
structure Candidate where
  streamId : ℤ
  epgId : String
  role : Role
  deriving DecidableEq

structure Capture where
  ok : Bool
  killed : Bool
  frames : List UInt8

structure Match where
  score : ℚ
  offset : ℤ
  overlap : ℕ
  deriving DecidableEq

/-- **What a check needs from the world** `ω`. -/
structure FeedIo (ω : Type) where
  /-- A running capture of a stream, if a slot is free. -/
  captureUpstream : ℤ → ℕ → ω → Option ℕ × ω
  captureSegments : List String → ω → ℕ × ω
  /-- The end of a running capture. -/
  frames : ℕ → ω → Capture × ω
  kill : ℕ → ω → ω
  nowMs : ω → ℤ × ω
  sleep : ℕ → ω → ω
  /-- The segments of the session written since a time. -/
  sessionSegments : ℤ → ω → List String × ω
  /-- `compare`, on a thread of its own. -/
  compare : List UInt8 → List UInt8 → ω → Option Match × ω
  /-- What a query finds in the tables of the catalog, if it succeeds. -/
  query : ω → Option Catalog × ω
  /-- `feed_check_candidates` -/
  candidates : ℤ → String → ω → Option (List Candidate) × ω

inductive Event
  /-- The candidate's turn came, at a time. -/
  | tried (c : Candidate) (capturedAt : ℤ)
  | compared (c : Candidate) (m : Option Match)
  /-- A query for the title on air answered. -/
  | aired (id : String) (at' : ℤ) (title : Option (List Char))
  deriving DecidableEq

/-- **The state of a check**: the world, the verdicts on record, and what was written and done. -/
structure Checking (ω : Type) where
  world : ω
  checks : Checks
  recorded : List FeedCheck := []
  trace : List Event := []

abbrev Check (ω : Type) := Program (Checking ω)

variable {ω : Type} (io : FeedIo ω) (F : Formats)

def ask {α : Type} (f : ω → α × ω) : Check ω α := act fun s =>
  ((f s.world).1, { s with world := (f s.world).2 })

def query {α : Type} (f : Catalog → Checks → α) : Check ω α := attempt fun s =>
  ((io.query s.world).1.map (f · s.checks), { s with world := (io.query s.world).2 })

def note (e : Event) : Check ω Unit := act fun s => ((), { s with trace := s.trace ++ [e] })

/-- `sleep` -/
def sleep (ms : ℕ) : Check ω Unit := ask fun w => ((), io.sleep ms w)

/-- `get_feed_check` -/
def getFeedCheck (streamId : ℤ) : Check ω (Option FeedCheck) :=
  query io fun _ checks => checks.lookup streamId

/-- **`record_feed_check`** -/
def recordFeedCheck (c : FeedCheck) (atMs : ℤ) : Check ω Unit := do
  query io fun _ _ => ()
  let c := { c with checkedAt := F.iso atMs }
  act fun s => ((), { s with
    checks := s.checks.insert c.streamId c
    recorded := s.recorded ++ [c] })

/-! ### Outcomes -/

/-- **What a check comes to.** -/
inductive Outcome
  | carries (epgId : String) (matchedStreamId : Option ℤ) (score : Option ℚ) (cached : Bool)
  | unknown (reason : String) (score : Option ℚ)
  | aborted (reason : String)
  deriving DecidableEq

inductive CompareVerdict
  | same
  | different
  | unsure
  deriving DecidableEq

/-- The number that `0.85` is read as. -/
def matchScore : ℚ := 7656119366529843 / 9007199254740992

/-- The number that `0.6` is read as. -/
def noMatchScore : ℚ := 5404319552844595 / 9007199254740992

/-- `classify` -/
def classify : Option Match → CompareVerdict
  | none => .unsure
  | some m =>
    if matchScore ≤ m.score then .same
    else if m.score < noMatchScore then .different
    else .unsure

/-- `schedule_agreement`, by two queries. -/
def sameScheduleEpgIds (a b : String) (at' : ℤ) : Check ω Bool := do
  let span (id : String) := loadSchedule F id (at' - 12 * 3600000) (at' + 12 * 3600000)
  let sa ← query io fun catalog _ => span a catalog
  let sb ← query io fun catalog _ => span b catalog
  pure (sameSchedule (scheduleAgreement F sa sb at' 12))

def matchesListing (listed : Option String) (epgId : String) (at' : ℤ) : Check ω Bool :=
  if some epgId = listed then pure true
  else match listed with
    | some l => sameScheduleEpgIds io F l epgId at'
    | none => pure false

/-- **`record_outcome`** -/
def recordOutcome (streamId : ℤ) (listed : Option String) (outcome : Outcome) (at' : ℤ) :
    Check ω Unit :=
  match outcome with
  | .carries _ _ _ true | .aborted _ => pure ()
  | .carries epgId matched score false => do
    if ← matchesListing io F listed epgId at' then
      recordFeedCheck io F ⟨streamId, .matched, listed, none, matched, score, none, ""⟩ at'
    else
      recordFeedCheck io F
        ⟨streamId, .mislabeled, listed, some epgId, matched, score, none, ""⟩ at'
  | .unknown reason score => do
    -- nothing to compare is no evidence against a mislabel, which stays and is stamped again
    let prior ← getFeedCheck io streamId
    match prior.filter fun p =>
      reason = noSiblingReason ∧ p.verdict = .mislabeled ∧ p.listedEpgId = listed with
    | some prior => recordFeedCheck io F { prior with reason := some reason } at'
    | none =>
      recordFeedCheck io F
        ⟨streamId, .inconclusive, listed, none, none, score, some reason, ""⟩ at'

/-- **`record_corroboration`**: the matched candidate carries the picture too, and the provider's
own tag says so. -/
def recordCorroboration (outcome : Outcome) (subject : ℤ) (now : ℤ) : Check ω Unit :=
  match outcome with
  | .carries epgId (some candidate) score false => do
    match ← query io fun catalog _ => catalog.channel candidate with
    | none => pure ()
    | some row =>
      if row.listedEpg ≠ some epgId ∨ row.epgChannelId ≠ some epgId then pure ()
      else
        let prior ← getFeedCheck io candidate
        if prior.any fun p => feedCheckIsFresh F p (some epgId) now then pure ()
        else
          recordFeedCheck io F
            ⟨candidate, .matched, some epgId, none, some subject, score, none, ""⟩ now
  | _ => pure ()

/-! ### Footage -/

/-- **The footage of a comparison**, or why there is none. -/
inductive Footage
  | frames (subject candidate : List UInt8)
  /-- End the check without a verdict. -/
  | abort (reason : String)
  /-- Drop this candidate. -/
  | skip (reason : String)
  /-- The subject itself could not be captured. -/
  | subjectFailed (reason : String)

/-- Where the footage of the subject comes from. -/
inductive Mode (ω : Type)
  /-- A session of a viewer, and whether it is active. -/
  | session (isActive : ω → Bool × ω)
  | standalone

/-- **`footage`** -/
def footage (subject : ℤ) (candidate : Candidate) : Mode ω → Check ω Footage
  | .session isActive => do
    let started ← ask io.nowMs
    match ← ask (io.captureUpstream candidate.streamId 15) with
    | none => pure (.abort "no free upstream slot")
    | some task =>
      let cand ← ask (io.frames task)
      if cand.killed then pure (.abort "candidate capture preempted")
      else if !cand.ok then pure (.skip "candidate capture failed")
      else
        sleep io 2500
        if !(← ask isActive) then pure (.abort "session ended")
        else
          let files ← ask (io.sessionSegments (started - 30000))
          if files.isEmpty then pure (.abort "no session footage")
          else
            let task ← ask (io.captureSegments files)
            let subj ← ask (io.frames task)
            if !subj.ok then pure (.abort "session footage unreadable")
            else pure (.frames subj.frames cand.frames)
  | .standalone => do
    match ← ask (io.captureUpstream subject 40) with
    | none => pure (.abort "no free upstream slot")
    | some task =>
      match ← ask (io.captureUpstream candidate.streamId 40) with
      | none =>
        ask fun w => ((), io.kill task w)
        pure (.abort "no second free upstream slot")
      | some task' =>
        let subj ← ask (io.frames task)
        let cand ← ask (io.frames task')
        if subj.killed || cand.killed then pure (.abort "capture preempted")
        else if !subj.ok then pure (.subjectFailed "subject capture failed")
        else if !cand.ok then pure (.skip "candidate capture failed")
        else pure (.frames subj.frames cand.frames)

def fpFrameBytes : ℕ := 32 * 18

/-- **`is_still`**: at least forty frames, all of them close to the first one. -/
def isStill (frames : List UInt8) : Bool :=
  match (frames.toChunks fpFrameBytes).filter fun f => f.length = fpFrameBytes with
  | [] => false
  | first :: rest =>
    let diff (f : List UInt8) :=
      (List.zipWith (fun a b => ((a.toNat : ℤ) - b.toNat).natAbs) f first).sum
    rest.all (fun f => diff f < fpFrameBytes) && 40 ≤ 1 + rest.length

def seen : Footage → Footage
  | .frames subject candidate =>
    if isStill subject then .subjectFailed "subject shows a still picture"
    else if isStill candidate then .skip "candidate shows a still picture"
    else .frames subject candidate
  | f => f

/-! ### The comparison -/

/-- `listings_differ`, by two queries. -/
def listingsDiffer (a b : String) (at' : ℤ) : Check ω Bool := do
  let ta ← query io fun catalog _ => titleAt F a at' catalog
  note (.aired a at' ta)
  let tb ← query io fun catalog _ => titleAt F b at' catalog
  note (.aired b at' tb)
  pure (titlesDiffer ta tb)

inductive Turn
  | ended (outcome : Outcome)
  /-- The candidate is dropped. -/
  | skipped
  /-- The picture of the candidate is another one. -/
  | differed (best : Option ℚ)

/-- What the comparison knows before a turn. -/
structure Progress where
  best : Option ℚ := none
  /-- The first sibling whose picture clearly differed. -/
  differed : Option ℤ := none
  first : Bool := true

def bestOf (best : Option ℚ) (m : Option Match) : Option ℚ :=
  match m with
  | some m => some (max (best.getD (-1)) m.score)
  | none => best

/-- **What follows from a comparison.** A match of a related channel alone is symmetric; a stream
of the listing that clearly differed breaks the tie, unless the two channels list the same
programme. -/
def judge (intended : String) (candidate : Candidate) (capturedAt : ℤ) (differed : Option ℤ)
    (best : Option ℚ) (m : Option Match) : Check ω Turn :=
  let carries := Turn.ended
    (.carries candidate.epgId (some candidate.streamId) (m.map Match.score) false)
  match classify m with
  | .same =>
    if candidate.role = .family then
      if differed.isNone then
        pure (.ended (.unknown "matches a related channel with no listed stream to compare" best))
      else do
        if !(← listingsDiffer io F intended candidate.epgId capturedAt) then
          pure (.ended (.unknown
            "matches a related channel listing the same programme (simulcast)" best))
        else pure carries
    else pure carries
  | .unsure => pure (.ended (.unknown "picture inconclusive" best))
  | .different => pure (.differed best)

/-- The gap before every turn but the first. -/
def pause (first : Bool) (gapMs : ℕ) : Check ω Unit :=
  if first then pure () else sleep io gapMs

/-- **One turn of the loop of `compare_against`.** -/
def tryCandidate (subject : ℤ) (intended : String) (mode : Mode ω) (wanted : ω → Bool × ω)
    (gapMs : ℕ) (candidate : Candidate) (p : Progress) : Check ω Turn := do
  pause io p.first gapMs
  if !(← ask wanted) then pure (.ended (.aborted "no longer wanted"))
  else
    let capturedAt ← ask io.nowMs
    note (.tried candidate capturedAt)
    let got ← footage io subject candidate mode
    match seen got with
    | .abort r => pure (.ended (.aborted r))
    | .subjectFailed r => pure (.ended (.unknown r p.best))
    | .skip _ => pure .skipped
    | .frames subj cand =>
      let m ← ask (io.compare subj cand)
      note (.compared candidate m)
      judge io F intended candidate capturedAt p.differed (bestOf p.best m) m

def promote (queue : List Candidate) : List Candidate :=
  match queue.findIdx? fun c => c.role = .sibling with
  | some i => queue[i]?.toList ++ queue.eraseIdx i
  | none => queue

/-- The queue after a candidate was dropped: after a sibling, the next one is tried before the
related channels. -/
def afterSkip (candidate : Candidate) (queue : List Candidate) : List Candidate :=
  if candidate.role = .sibling then promote queue else queue

theorem promote_perm (queue : List Candidate) : (promote queue).Perm queue := by
  rw [promote]
  split
  · rename_i i hi
    obtain ⟨hlt, -⟩ := List.findIdx?_eq_some_iff_getElem.mp hi
    rw [List.getElem?_eq_getElem hlt]
    exact List.getElem_cons_eraseIdx_perm hlt
  · rfl

theorem afterSkip_perm (candidate : Candidate) (queue : List Candidate) :
    (afterSkip candidate queue).Perm queue := by
  rw [afterSkip]
  split
  · exact promote_perm queue
  · rfl

/-- **`compare_against`**, from a queue on. -/
def compareFrom (none' : String) (subject : ℤ) (intended : String) (mode : Mode ω)
    (wanted : ω → Bool × ω) (gapMs : ℕ) :
    List Candidate → Progress → Check ω (Outcome × Option ℤ)
  | [], p => pure (.unknown none' p.best, p.differed)
  | candidate :: queue, p => do
    match ← tryCandidate io F subject intended mode wanted gapMs candidate p with
    | .ended outcome => pure (outcome, p.differed)
    | .skipped =>
      compareFrom none' subject intended mode wanted gapMs (afterSkip candidate queue)
        { p with first := false }
    | .differed best =>
      let differed :=
        if candidate.role = .sibling then p.differed.or (some candidate.streamId) else p.differed
      compareFrom none' subject intended mode wanted gapMs queue ⟨best, differed, false⟩
termination_by queue => queue.length
decreasing_by
  · have := (afterSkip_perm candidate queue).length_eq
    simp only [List.length_cons]
    omega
  · simp

/-- **`compare_against`**: walk the candidates until one clearly matches. -/
def compareAgainst (subject : ℤ) (intended : String) (candidates : List Candidate)
    (mode : Mode ω) (wanted : ω → Bool × ω) (gapMs : ℕ) : Check ω (Outcome × Option ℤ) :=
  compareFrom io F
    (if candidates.isEmpty then "no candidate streams" else "no candidate matched")
    subject intended mode wanted gapMs candidates {}

/-! ### Checks -/

def feedCheckCandidates (subject : ℤ) (intended : String) : Check ω (List Candidate) :=
  attempt fun s => ((io.candidates subject intended s.world).1,
    { s with world := (io.candidates subject intended s.world).2 })

/-- Some candidate carries the intended identifier. -/
def hasSibling (list : List Candidate) : Bool := list.any fun c => c.role = .sibling

def recordBoth (subject : ℤ) (listed : Option String) (outcome : Outcome) : Check ω Unit := do
  let now ← ask io.nowMs
  recordOutcome io F subject listed outcome now
  let now ← ask io.nowMs
  recordCorroboration io F outcome subject now

/-- **`check_feed_standalone`**: a check with no viewer. -/
def checkFeedStandalone (streamId : ℤ) (wanted : ω → Bool × ω) : Check ω Outcome := do
  match ← query io (effectiveEpgId streamId) with
  | none => pure (.unknown "no guide id" none)
  | some intended =>
    let listed ← query io (listedEpgId streamId)
    let list ← feedCheckCandidates io streamId intended
    if !hasSibling list then
      let outcome := Outcome.unknown noSiblingReason none
      let now ← ask io.nowMs
      recordOutcome io F streamId listed outcome now
      pure outcome
    else
      let (outcome, _) ← compareAgainst io F streamId intended list .standalone wanted 3000
      recordBoth io F streamId listed outcome
      pure outcome

structure LiveSessionRef where
  tuned : ℤ
  dialed : ℤ
  startedAtMs : ℤ

/-- `LiveCheck` -/
structure LiveCheck where
  outcome : Outcome
  intendedEpg : Option String
  switchTo : Option ℤ

/-- `switch_target`: the sibling seen to differ, or else the first one listed. -/
def switchTarget (intended : String) (list : List Candidate) (differed : Option ℤ) :
    Outcome → Option ℤ
  | .carries epgId _ _ _ =>
    if epgId ≠ intended then
      differed.or ((list.find? fun c => c.role = .sibling).map Candidate.streamId)
    else none
  | _ => none

/-- What a session's check records, if the dialed stream is filed under what the viewer tuned. -/
def recordLive (ownListing : Bool) (subject : ℤ) (listed : Option String) (outcome : Outcome) :
    Check ω Unit :=
  if ownListing then recordBoth io F subject listed outcome else pure ()

/-- Wait until the session is ten seconds old, for some rounds: whether it is, and nothing if it
still is not. -/
def warmUp (startedAtMs : ℤ) (isActive : ω → Bool × ω) : ℕ → Check ω (Option Bool)
  | 0 => pure none
  | rounds + 1 => do
    let now ← ask io.nowMs
    if now - startedAtMs < 10000 then
      if !(← ask isActive) then pure (some false)
      else
        sleep io 1000
        warmUp startedAtMs isActive rounds
    else pure (some true)

/-- A verdict on record that still stands, as an outcome. -/
def cachedOutcome (prior : FeedCheck) (listed : Option String) : Outcome :=
  match knownCarriedEpgId prior listed with
  | some epgId => .carries epgId prior.matchedStreamId prior.score true
  | none => .unknown "recently inconclusive" prior.score

/-- The verdict on record, if it still stands. -/
def freshCheck (subject : ℤ) (listed : Option String) : Check ω (Option FeedCheck) := do
  match ← getFeedCheck io subject with
  | none => pure none
  | some prior =>
    let now ← ask io.nowMs
    pure (if feedCheckIsFresh F prior listed now then some prior else none)

/-- **`check_live_session`**: a check behind a session, which waits for some rounds; nothing if it
still waits then. -/
def checkLiveSession (r : LiveSessionRef) (isActive : ω → Bool × ω) (rounds : ℕ) :
    Check ω (Option LiveCheck) := do
  match ← query io (effectiveEpgId r.tuned) with
  | none => pure (some ⟨.unknown "no guide id" none, none, none⟩)
  | some intended =>
    let subject := r.dialed
    let listed ← query io (listedEpgId subject)
    let own ← query io (effectiveEpgId subject)
    let ownListing : Bool := own = some intended
    let list ← feedCheckCandidates io subject intended
    match ← freshCheck io F subject listed with
    | some prior =>
      let outcome := cachedOutcome prior listed
      pure (some ⟨outcome, some intended, switchTarget intended list none outcome⟩)
    | none =>
      if !hasSibling list then
        let outcome := Outcome.unknown noSiblingReason none
        recordLive io F ownListing subject listed outcome
        pure (some ⟨outcome, some intended, none⟩)
      else
        match ← warmUp io r.startedAtMs isActive rounds with
        | none => pure none
        | some false => pure (some ⟨.aborted "session ended", some intended, none⟩)
        | some true =>
          let (outcome, differed) ← compareAgainst io F subject intended list
            (.session isActive) isActive 1000
          recordLive io F ownListing subject listed outcome
          pure (some ⟨outcome, some intended, switchTarget intended list differed outcome⟩)

/-! ### What a check leaves -/

/-- A query failed at some state of the world. -/
def Failed : Prop := ∃ w, (io.query w).1 = none ∨ ∃ id epg, (io.candidates id epg w).1 = none

/-- **What a check has done since**: its events, and what it recorded. The table is the one before
with that in it. -/
structure Since (s t : Checking ω) (es : List Event) (new : List FeedCheck) : Prop where
  trace : t.trace = s.trace ++ es
  recorded : t.recorded = s.recorded ++ new
  checks : t.checks = new.foldl (fun checks c => checks.insert c.streamId c) s.checks

variable {io F} {s t u : Checking ω} {es es' : List Event} {new new' : List FeedCheck}

theorem Since.world (w : ω) : Since s { s with world := w } [] [] where
  trace := (List.append_nil _).symm
  recorded := (List.append_nil _).symm
  checks := rfl

theorem Since.trans (h : Since s t es new) (h' : Since t u es' new') :
    Since s u (es ++ es') (new ++ new') where
  trace := by rw [h'.trace, h.trace, List.append_assoc]
  recorded := by rw [h'.recorded, h.recorded, List.append_assoc]
  checks := by rw [h'.checks, h.checks, List.foldl_append]

theorem Since.change (h : Since s t es new) (w : ω) : Since s { t with world := w } es new := by
  simpa using h.trans (Since.world w)

section rules

variable {α : Type} {Q : α → Checking ω → Prop} {E : Checking ω → Prop}

@[simp] theorem wp_ask {f : ω → α × ω} :
    Wp (ask f) Q E s ↔ Q (f s.world).1 { s with world := (f s.world).2 } := Iff.rfl

theorem wp_query {f : Catalog → Checks → α}
    (hQ : ∀ catalog w, (io.query s.world).1 = some catalog →
      Q (f catalog s.checks) { s with world := w })
    (hE : ∀ w, Failed io → E { s with world := w }) : Wp (query io f) Q E s := by
  refine wp_attempt ?_ ?_
  · intro a ha
    obtain ⟨catalog, hcatalog, rfl⟩ := Option.map_eq_some_iff.mp ha
    exact hQ catalog _ hcatalog
  · intro hnone
    exact hE _ ⟨s.world, .inl (Option.map_eq_none_iff.mp hnone)⟩

theorem wp_note {e : Event} {Q : Unit → Checking ω → Prop} :
    Wp (note e) Q E s ↔ Q () { s with trace := s.trace ++ [e] } := Iff.rfl

theorem Since.note (h : Since s t es new) (e : Event) :
    Since s { t with trace := t.trace ++ [e] } (es ++ [e]) new where
  trace := by rw [h.trace, List.append_assoc]
  recorded := h.recorded
  checks := h.checks

/-- Where the subject is to blame, it is for its own footage. -/
def Footage.OfSubject (f : Footage) : Prop := ∀ r, f = .subjectFailed r → r ≠ noSiblingReason

theorem Footage.OfSubject.seen {f : Footage} (h : f.OfSubject) : (seen f).OfSubject := by
  rintro r hr
  rcases f with ⟨subject, candidate⟩ | _ | _ | _
  · rw [Feeds.seen] at hr
    split at hr
    · obtain rfl := Footage.subjectFailed.inj hr
      decide
    · split at hr <;> cases hr
  · exact h r hr
  · exact h r hr
  · exact h r hr

/-- **Footage only asks the world.** -/
theorem wp_footage {subject : ℤ} {candidate : Candidate} {Q : Footage → Checking ω → Prop}
    {mode : Mode ω} (hQ : ∀ f w, f.OfSubject → Q f { s with world := w }) :
    Wp (footage io subject candidate mode) Q E s := by
  have hfailed : (Footage.subjectFailed "subject capture failed").OfSubject := by
    rintro r hr
    obtain rfl := Footage.subjectFailed.inj hr
    decide
  rcases mode with isActive | _
  · simp only [footage, sleep, wp_bind, wp_ask]
    split
    · exact hQ _ _ (by rintro _ ⟨⟩)
    · simp only [wp_bind, wp_ask, wp_ite, wp_pure]
      repeat' split
      all_goals exact hQ _ _ (by rintro _ ⟨⟩)
  · simp only [footage, wp_bind, wp_ask]
    split
    · exact hQ _ _ (by rintro _ ⟨⟩)
    · simp only [wp_bind, wp_ask]
      split
      · exact hQ _ _ (by rintro _ ⟨⟩)
      · simp only [wp_bind, wp_ask, wp_ite, wp_pure]
        split
        · exact hQ _ _ (by rintro _ ⟨⟩)
        split
        · exact hQ _ _ hfailed
        split
        · exact hQ _ _ (by rintro _ ⟨⟩)
        · exact hQ _ _ (by rintro _ ⟨⟩)

theorem wp_pause {first : Bool} {gapMs : ℕ} {Q : Unit → Checking ω → Prop}
    (hQ : ∀ w, Q () { s with world := w }) : Wp (pause io first gapMs) Q E s := by
  rw [pause, wp_ite]
  split
  · exact hQ s.world
  · exact hQ _

/-- What `listings_differ` leaves: the two titles. -/
theorem wp_listingsDiffer {a b : String} {at' : ℤ} {Q : Bool → Checking ω → Prop}
    (hQ : ∀ ta tb t, Since s t [.aired a at' ta, .aired b at' tb] [] → Q (titlesDiffer ta tb) t)
    (hE : ∀ t es, Failed io → (∀ c at'', .tried c at'' ∉ es) → Since s t es [] → E t) :
    Wp (listingsDiffer io F a b at') Q E s := by
  simp only [listingsDiffer, wp_bind]
  refine wp_query (fun catalog w _ => ?_) fun w hw => hE _ [] hw (by simp) (.world w)
  rw [wp_note]
  have h := (Since.world w).note (s := s) (.aired a at' (titleAt F a at' catalog))
  refine wp_query (fun catalog' w' _ => ?_) fun w' hw => hE _ _ hw (by simp) (h.change w')
  exact hQ _ _ _ ((h.change w').note _)

end rules

/-! ### Turns -/

def triedOf (es : List Event) : List Candidate :=
  es.filterMap fun e => match e with
    | .tried c _ => some c
    | _ => none

theorem triedOf_append (es es' : List Event) : triedOf (es ++ es') = triedOf es ++ triedOf es' :=
  List.filterMap_append

theorem triedOf_eq_nil (h : ∀ c at', .tried c at' ∉ es) : triedOf es = [] := by
  rw [triedOf, List.filterMap_eq_nil_iff]
  rintro (⟨c, at'⟩ | _ | _) he
  · exact absurd he (h c at')
  · rfl
  · rfl

theorem of_titlesDiffer {a b : Option (List Char)} (h : titlesDiffer a b = true) :
    ∃ ta tb, a = some ta ∧ b = some tb ∧ sameProgramme ta tb = false := by
  rcases a with _ | ta
  · exact absurd h Bool.false_ne_true
  rcases b with _ | tb
  · exact absurd h Bool.false_ne_true
  exact ⟨ta, tb, rfl, rfl, by simpa [titlesDiffer] using h⟩

/-- The titles on air at a time are of two programmes. -/
def ListingsDiffer (es : List Event) (a b : String) (at' : ℤ) : Prop :=
  ∃ ta tb, .aired a at' (some ta) ∈ es ∧ .aired b at' (some tb) ∈ es ∧ sameProgramme ta tb = false

/-- **An outcome is warranted by what happened.** For a carry, some candidate clearly matched, and
if that is a stream of a related channel, the tie was broken and the two channels list different
programmes at the time of its turn. No other outcome says that there was nothing to compare. -/
def Warranted (intended : String) (es : List Event) (tie : Prop) : Outcome → Prop
  | .carries epgId matched score cached =>
    cached = false ∧ ∃ c m at', epgId = c.epgId ∧ matched = some c.streamId ∧
      score = m.map Match.score ∧ .tried c at' ∈ es ∧ .compared c m ∈ es ∧ classify m = .same ∧
      (c.role = .family → tie ∧ ListingsDiffer es intended c.epgId at')
  | .unknown reason _ => reason ≠ noSiblingReason
  | .aborted _ => True

theorem warranted_unknown {intended : String} {tie : Prop} {reason : String} {score : Option ℚ}
    (h : reason ≠ noSiblingReason) : Warranted intended es tie (.unknown reason score) := h

def SiblingDiffered (es : List Event) (streamId : ℤ) : Prop :=
  ∃ c m, c.role = Role.sibling ∧ c.streamId = streamId ∧ .compared c m ∈ es ∧
    classify m = .different

theorem SiblingDiffered.mono {streamId : ℤ} (hes : es ⊆ es') (h : SiblingDiffered es streamId) :
    SiblingDiffered es' streamId := by
  obtain ⟨c, m, hrole, hid, hm, hdifferent⟩ := h
  exact ⟨c, m, hrole, hid, hes hm, hdifferent⟩

theorem Warranted.mono {intended : String} {tie tie' : Prop} {outcome : Outcome} (hes : es ⊆ es')
    (htie : tie → tie') (h : Warranted intended es tie outcome) :
    Warranted intended es' tie' outcome := by
  rcases outcome with ⟨epgId, matched, score, cached⟩ | _ | _
  · obtain ⟨hcached, c, m, at', hepg, hmatched, hscore, htried, hm, hsame, hfamily⟩ := h
    refine ⟨hcached, c, m, at', hepg, hmatched, hscore, hes htried, hes hm, hsame, ?_⟩
    rintro hrole
    obtain ⟨h, ta, tb, ha, hb, hab⟩ := hfamily hrole
    exact ⟨htie h, ta, tb, hes ha, hes hb, hab⟩
  · exact h
  · trivial

def Told (intended : String) (c : Candidate) (p : Progress) (es : List Event) : Turn → Prop
  | .ended outcome => Warranted intended es p.differed.isSome outcome
  | .skipped => True
  | .differed _ => ∃ m, .compared c m ∈ es ∧ classify m = .different

section turns

variable {subject : ℤ} {intended : String} {mode : Mode ω} {wanted : ω → Bool × ω} {gapMs : ℕ}
  {c : Candidate} {p : Progress}

/-- **The verdict of a comparison.** -/
theorem wp_judge {at' : ℤ} {best : Option ℚ} {m : Option Match} {pre : List Event}
    (hs : Since s t pre []) (hpre : triedOf pre = [c]) (htried : .tried c at' ∈ pre)
    (hm : .compared c m ∈ pre) :
    Wp (judge io F intended c at' p.differed best m)
      (fun turn u => ∃ es, Since s u es [] ∧ triedOf es = [c] ∧ Told intended c p es turn)
      (fun u => Failed io ∧ ∃ es, Since s u es [] ∧ triedOf es = [c]) t := by
  -- an outcome without a carry leaves nothing to say
  have hended (outcome : Outcome) (h : Warranted intended pre p.differed.isSome outcome) :
      ∃ es, Since s t es [] ∧ triedOf es = [c] ∧ Told intended c p es (.ended outcome) :=
    ⟨pre, hs, hpre, h⟩
  rw [judge]
  split
  · rename_i hsame
    split
    · rename_i hrole
      split
      · exact hended _ (warranted_unknown (by decide))
      · rename_i hdiffered
        rw [wp_bind]
        refine wp_listingsDiffer (fun ta tb u hu => ?_) fun u es hfailed hes hu => ?_
        · have hu := hs.trans hu
          have htriedOf :
              triedOf (pre ++ [.aired intended at' ta, .aired c.epgId at' tb]) = [c] := by
            rw [triedOf_append, hpre]
            rfl
          rw [wp_ite]
          split
          · refine ⟨_, hu, htriedOf, ?_⟩
            show _ ≠ noSiblingReason
            decide
          · rename_i hdiffer
            refine ⟨_, hu, htriedOf, rfl, c, m, at', rfl, rfl, rfl, ?_, ?_, hsame, ?_⟩
            · exact List.mem_append_left _ htried
            · exact List.mem_append_left _ hm
            rintro -
            obtain ⟨ta, tb, rfl, rfl, hab⟩ := of_titlesDiffer (by simpa using hdiffer)
            refine ⟨?_, ta, tb, by simp, by simp, hab⟩
            simpa [← Option.isSome_iff_ne_none] using hdiffered
        · refine ⟨hfailed, pre ++ es, by simpa using hs.trans hu, ?_⟩
          rw [triedOf_append, hpre, triedOf_eq_nil hes, List.append_nil]
    · rename_i hrole
      refine hended _ ⟨rfl, c, m, at', rfl, rfl, rfl, htried, hm, hsame, ?_⟩
      rintro h
      exact absurd h hrole
  · exact hended _ (warranted_unknown (by decide))
  · rename_i hdifferent
    exact ⟨pre, hs, hpre, m, hm, hdifferent⟩

/-- **One turn**: only one that ends the comparison may leave its candidate untried. -/
theorem wp_tryCandidate :
    Wp (tryCandidate io F subject intended mode wanted gapMs c p)
      (fun turn t => ∃ es, Since s t es [] ∧ Told intended c p es turn ∧
        (triedOf es = [c] ∨ triedOf es = [] ∧ ∃ outcome, turn = .ended outcome))
      (fun t => Failed io ∧ ∃ es, Since s t es [] ∧ triedOf es = [c]) s := by
  -- what the turn leaves once its candidate is tried and only the world has changed
  have htried (at' : ℤ) (w : ω) :
      Since s ⟨w, s.checks, s.recorded, s.trace ++ [.tried c at']⟩ [.tried c at'] [] :=
    ((Since.world w).note (s := s) (.tried c at')).change w
  have hsaid (at' : ℤ) (w : ω) (turn : Turn) (h : Told intended c p [.tried c at'] turn) :
      ∃ es, Since s ⟨w, s.checks, s.recorded, s.trace ++ [.tried c at']⟩ es [] ∧
        Told intended c p es turn ∧
          (triedOf es = [c] ∨ triedOf es = [] ∧ ∃ outcome, turn = .ended outcome) :=
    ⟨_, htried at' w, h, .inl rfl⟩
  rw [tryCandidate, wp_bind]
  refine wp_pause fun w => ?_
  rw [wp_bind, wp_ask, wp_ite]
  split
  · exact ⟨[], .world _, trivial, .inr ⟨rfl, _, rfl⟩⟩
  · simp only [wp_bind, wp_ask, wp_note]
    refine wp_footage fun got w' hgot => ?_
    split
    · exact hsaid _ _ _ trivial
    · rename_i r hr
      exact hsaid _ _ _ (hgot.seen r hr)
    · exact hsaid _ _ _ trivial
    · rw [wp_bind, wp_ask, wp_bind, wp_note]
      refine (wp_judge ((htried _ _).note _) rfl List.mem_cons_self (by simp)).mono ?_ ?_
      · rintro turn u ⟨es, hu, hes, htold⟩
        exact ⟨es, hu, htold, .inl hes⟩
      · rintro u h
        exact h

def TriedOnce (candidates : List Candidate) (es : List Event) : Prop :=
  ∃ rest, (triedOf es ++ rest).Perm candidates

/-- **What holds between the turns.** -/
structure Walk (candidates : List Candidate) (es : List Event) (queue : List Candidate)
    (p : Progress) : Prop where
  perm : (triedOf es ++ queue).Perm candidates
  differed : ∀ streamId, p.differed = some streamId → SiblingDiffered es streamId

variable {candidates queue : List Candidate}

theorem Walk.next (h : Walk candidates es (c :: queue) p) (hes : triedOf es' = [c])
    {queue' : List Candidate} (hqueue : queue'.Perm queue) {p' : Progress}
    (hp : ∀ streamId, p'.differed = some streamId → p.differed = some streamId ∨
      SiblingDiffered es' streamId) : Walk candidates (es ++ es') queue' p' where
  perm := by
    rw [triedOf_append, hes, List.append_assoc]
    exact ((List.Perm.cons c hqueue).append_left (triedOf es)).trans h.perm
  differed := by
    rintro streamId hid
    rcases hp streamId hid with hold | hnew
    · exact (h.differed streamId hold).mono (List.subset_append_left es es')
    · exact hnew.mono (List.subset_append_right es es')

/-- **What the comparison leaves**, whatever the queue and the progress. -/
theorem wp_compareFrom {none' : String} (hnone : none' ≠ noSiblingReason)
    (hs : Since s t es []) (h : Walk candidates es queue p) :
    Wp (compareFrom io F none' subject intended mode wanted gapMs queue p)
      (fun r u => ∃ es, Since s u es [] ∧ TriedOnce candidates es ∧
        Warranted intended es (∃ streamId, SiblingDiffered es streamId) r.1 ∧
        ∀ streamId, r.2 = some streamId → SiblingDiffered es streamId)
      (fun u => Failed io ∧ ∃ es, Since s u es [] ∧ TriedOnce candidates es) t := by
  induction hn : queue.length using Nat.strong_induction_on generalizing queue p t es with
  | _ n ih =>
  rcases queue with _ | ⟨c, queue⟩
  · rw [compareFrom, wp_pure]
    exact ⟨es, hs, ⟨[], h.perm⟩, hnone, h.differed⟩
  obtain rfl : queue.length + 1 = n := hn
  rw [compareFrom, wp_bind]
  refine wp_tryCandidate.mono ?_ ?_
  · rintro turn u ⟨es', hu, htold, htried⟩
    have hu := hs.trans hu
    rcases turn with outcome | _ | best
    · -- the end: what the turn tells of its own events holds of all of them
      refine ⟨es ++ es', hu, ?_, htold.mono (List.subset_append_right es es') ?_, ?_⟩
      · rcases htried with hes' | ⟨hes', -⟩
        · exact ⟨queue, by simpa [triedOf_append, hes'] using h.perm⟩
        · exact ⟨c :: queue, by simpa [triedOf_append, hes'] using h.perm⟩
      · rintro hsome
        obtain ⟨streamId, hid⟩ := Option.isSome_iff_exists.mp hsome
        exact ⟨streamId, (h.differed streamId hid).mono (List.subset_append_left es es')⟩
      · rintro streamId hid
        exact (h.differed streamId hid).mono (List.subset_append_left es es')
    · obtain hes' | ⟨-, outcome, hended⟩ := htried
      · have hperm := afterSkip_perm c queue
        exact ih _ (by rw [hperm.length_eq]; omega) hu
          (h.next hes' hperm fun streamId hid => .inl hid) rfl
      · exact absurd hended (by simp)
    · obtain hes' | ⟨-, outcome, hended⟩ := htried
      · obtain ⟨m, hm, hdifferent⟩ := htold
        refine ih _ (by omega) hu (h.next hes' (.refl queue) ?_) rfl
        rintro streamId hid
        dsimp only at hid
        split at hid
        · rename_i hrole
          rcases Option.or_eq_some_iff.mp hid with hid | ⟨-, hid⟩
          · exact .inl hid
          · exact .inr ⟨c, m, hrole, Option.some.inj hid, hm, hdifferent⟩
        · exact .inl hid
      · exact absurd hended (by simp)
  · rintro u ⟨hfailed, es', hu, hes'⟩
    refine ⟨hfailed, es ++ es', hs.trans hu, queue, ?_⟩
    simpa [triedOf_append, hes'] using h.perm

end turns

/-! ### Records -/

/-- An outcome that leaves no record: an aborted check, or a verdict already on record. -/
def Outcome.Silent : Outcome → Prop
  | .carries _ _ _ cached => cached = true
  | .unknown _ _ => False
  | .aborted _ => True

/-- **Why a record of a mislabel was written.** The outcome is a carry of another identifier than
the listed one; or there was nothing to compare, and the mislabel was on record for the same
listing. -/
inductive Explained (checks : Checks) (subject : ℤ) (listed : Option String) :
    Outcome → FeedCheck → Prop
  | carried {epgId checkedAt : String} {matched : Option ℤ} {score : Option ℚ}
      (hother : listed ≠ some epgId) :
      Explained checks subject listed (.carries epgId matched score false)
        ⟨subject, .mislabeled, listed, some epgId, matched, score, none, checkedAt⟩
  | restamped (prior : FeedCheck) {checkedAt : String} {score : Option ℚ}
      (hprior : checks.lookup subject = some prior) (hverdict : prior.verdict = .mislabeled)
      (hlisted : prior.listedEpgId = listed) :
      Explained checks subject listed (.unknown noSiblingReason score)
        { prior with reason := some noSiblingReason, checkedAt }

def Wrote (s : Checking ω) (subject : ℤ) (listed : Option String) (outcome : Outcome)
    (t : Checking ω) : Prop :=
  ∃ new, Since s t [] new ∧ (outcome.Silent → new = []) ∧
    ∀ c ∈ new, c.verdict = .mislabeled → Explained s.checks subject listed outcome c

section records

variable {subject now : ℤ} {listed : Option String} {outcome : Outcome}
  {Q : Unit → Checking ω → Prop} {E : Checking ω → Prop}

theorem wrote_nothing (h : Since s t [] []) : Wrote s subject listed outcome t :=
  ⟨[], h, fun _ => rfl, fun _ hc => absurd hc List.not_mem_nil⟩

theorem Wrote.change (h : Wrote s subject listed outcome t) (w : ω) :
    Wrote s subject listed outcome { t with world := w } := by
  obtain ⟨new, hnew, hsilent, hexplained⟩ := h
  exact ⟨new, hnew.change w, hsilent, hexplained⟩

theorem wp_recordFeedCheck {c : FeedCheck}
    (hQ : ∀ t, Since s t [] [{ c with checkedAt := F.iso now }] → Q () t)
    (hE : ∀ t, Failed io → Since s t [] [] → E t) : Wp (recordFeedCheck io F c now) Q E s := by
  rw [recordFeedCheck, wp_bind]
  refine wp_query (fun _ w _ => ?_) fun w hw => hE _ hw (.world w)
  exact hQ _ ⟨(List.append_nil _).symm, rfl, rfl⟩

/-- **A record that is no mislabel, or an explained one.** -/
theorem wp_recordFeedCheck_wrote {c : FeedCheck} (hloud : ¬ outcome.Silent) (ht : Since s t [] [])
    (h : c.verdict = .mislabeled →
      Explained s.checks subject listed outcome { c with checkedAt := F.iso now }) :
    Wp (recordFeedCheck io F c now) (fun _ => Wrote s subject listed outcome)
      (fun u => Failed io ∧ Wrote s subject listed outcome u) t := by
  refine wp_recordFeedCheck (fun u hu => ?_) fun u hfailed hu =>
    ⟨hfailed, wrote_nothing (ht.trans hu)⟩
  refine ⟨_, ht.trans hu, fun hsilent => absurd hsilent hloud, ?_⟩
  rintro d hd
  obtain rfl := List.mem_singleton.mp hd
  exact h

theorem wp_matchesListing {epgId : String} {Q : Bool → Checking ω → Prop}
    (hQ : ∀ b t, Since s t [] [] → (b = false → listed ≠ some epgId) → Q b t)
    (hE : ∀ t, Failed io → Since s t [] [] → E t) :
    Wp (matchesListing io F listed epgId now) Q E s := by
  rw [matchesListing.eq_def]
  split
  · exact hQ true s (.world s.world) nofun
  rename_i hother
  have hother : listed ≠ some epgId := fun h => hother h.symm
  split
  · simp only [sameScheduleEpgIds, wp_bind]
    refine wp_query (fun _ w _ => ?_) fun w hw => hE _ hw (.world w)
    refine wp_query (fun _ w' _ => ?_) fun w' hw => hE _ hw ((Since.world w).change w')
    exact hQ _ _ ((Since.world w).change w') fun _ => hother
  · exact hQ false s (.world s.world) fun _ => hother

/-- **`record_outcome` explains its mislabels.** -/
theorem wp_recordOutcome (ht : Since s t [] []) :
    Wp (recordOutcome io F subject listed outcome now)
      (fun _ => Wrote s subject listed outcome)
      (fun u => Failed io ∧ Wrote s subject listed outcome u) t := by
  rcases outcome with ⟨epgId, matched, score, _ | _⟩ | ⟨reason, score⟩ | reason
  · rw [recordOutcome, wp_bind]
    refine wp_matchesListing (fun b u hu hb => ?_) fun u hfailed hu =>
      ⟨hfailed, wrote_nothing (ht.trans hu)⟩
    rw [wp_ite]
    split
    · exact wp_recordFeedCheck_wrote (by simp [Outcome.Silent]) (ht.trans hu) nofun
    · rename_i hfalse
      refine wp_recordFeedCheck_wrote (by simp [Outcome.Silent]) (ht.trans hu) fun _ => ?_
      exact .carried (hb (by simpa using hfalse))
  · exact wrote_nothing ht
  · rw [recordOutcome, wp_bind]
    refine wp_query (fun _ w _ => ?_) fun w hw => ⟨hw, wrote_nothing (ht.change w)⟩
    split
    · rename_i prior hprior
      obtain ⟨hlookup, hsame⟩ := Option.filter_eq_some_iff.mp hprior
      obtain ⟨rfl, hverdict, hlisted⟩ := of_decide_eq_true hsame
      rw [ht.checks] at hlookup
      exact wp_recordFeedCheck_wrote not_false (ht.change w) fun _ =>
        .restamped prior hlookup hverdict hlisted
    · exact wp_recordFeedCheck_wrote not_false (ht.change w) nofun
  · exact wrote_nothing ht

/-- **`record_corroboration` records no mislabel.** -/
theorem wp_recordCorroboration (hs : Wrote s subject listed outcome t) :
    Wp (recordCorroboration io F outcome subject now)
      (fun _ => Wrote s subject listed outcome)
      (fun u => Failed io ∧ Wrote s subject listed outcome u) t := by
  obtain ⟨new, hnew, hsilent, hexplained⟩ := hs
  have hstill (u : Checking ω) (hu : Since t u [] []) : Wrote s subject listed outcome u :=
    ⟨new, by simpa using hnew.trans hu, hsilent, hexplained⟩
  have hrefl : Since t t [] [] := .world t.world
  rw [recordCorroboration.eq_def]
  split
  · rename_i epgId candidate score
    rw [wp_bind]
    refine wp_query (fun _ w _ => ?_) fun w hw => ⟨hw, hstill _ (.world w)⟩
    split
    · exact hstill _ (.world w)
    rw [wp_ite]
    split
    · exact hstill _ (.world w)
    rw [wp_bind]
    refine wp_query (fun _ w' _ => ?_) fun w' hw => ⟨hw, hstill _ ((Since.world w).change w')⟩
    rw [wp_ite]
    split
    · exact hstill _ ((Since.world w).change w')
    refine wp_recordFeedCheck (fun u hu => ?_) fun u hfailed hu =>
      ⟨hfailed, hstill u (((Since.world w).change w').trans hu)⟩
    refine ⟨_, hnew.trans (((Since.world w).change w').trans hu), nofun, ?_⟩
    rintro c hc hverdict
    rcases List.mem_append.mp hc with hc | hc
    · exact hexplained c hc hverdict
    · obtain rfl := List.mem_singleton.mp hc
      exact absurd hverdict (by simp)
  · exact hstill t hrefl

theorem wp_recordBoth (ht : Since s t [] []) :
    Wp (recordBoth io F subject listed outcome)
      (fun _ => Wrote s subject listed outcome)
      (fun u => Failed io ∧ Wrote s subject listed outcome u) t := by
  simp only [recordBoth, wp_bind, wp_ask]
  refine (wp_recordOutcome (ht.change _)).mono (fun _ u hu => ?_) fun u hu => hu
  exact wp_recordCorroboration (hu.change _)

end records

/-! ### The results -/

/-- A query finds something at some state of the world. -/
def Finds (io : FeedIo ω) (f : Catalog → Checks → Option String) (checks : Checks)
    (found : Option String) : Prop :=
  ∃ w catalog, (io.query w).1 = some catalog ∧ f catalog checks = found

/-- **The grounds of a mislabel** that a check of a stream records, where a channel was tuned: a
carry that its events warrant, of another identifier than the listed one; or a mislabel already on
record for the listing, when nothing was tried. -/
inductive Grounds (io : FeedIo ω) (checks : Checks) (tuned subject : ℤ) (es : List Event) :
    FeedCheck → Prop
  | carried {intended epgId checkedAt : String} {listed : Option String} {matched : Option ℤ}
      {score : Option ℚ} (hintended : Finds io (effectiveEpgId tuned) checks (some intended))
      (hlisted : Finds io (listedEpgId subject) checks listed) (hother : listed ≠ some epgId)
      (hwarranted : Warranted intended es (∃ streamId, SiblingDiffered es streamId)
        (.carries epgId matched score false)) :
      Grounds io checks tuned subject es
        ⟨subject, .mislabeled, listed, some epgId, matched, score, none, checkedAt⟩
  | restamped (prior : FeedCheck) {checkedAt : String} (htrace : es = [])
      (hprior : checks.lookup subject = some prior) (hverdict : prior.verdict = .mislabeled)
      (hlisted : Finds io (listedEpgId subject) checks prior.listedEpgId) :
      Grounds io checks tuned subject es
        { prior with reason := some noSiblingReason, checkedAt }

/-- **What a check leaves**: nothing where it says so, and no mislabel without grounds. -/
def Leaves (io : FeedIo ω) (s : Checking ω) (tuned subject : ℤ) (silent : Prop)
    (t : Checking ω) : Prop :=
  ∃ es new, Since s t es new ∧ (silent → new = []) ∧
    ∀ c ∈ new, c.verdict = .mislabeled → Grounds io s.checks tuned subject es c

section results

variable {tuned subject : ℤ} {silent : Prop} {intended : String} {listed : Option String}
  {outcome : Outcome}

theorem leaves_nothing (h : Since s t es []) : Leaves io s tuned subject silent t :=
  ⟨es, [], h, fun _ => rfl, fun _ hc => absurd hc List.not_mem_nil⟩

/-- **The records of an outcome have grounds**, if the events before them warrant it. -/
theorem leaves_of_wrote (hs : Since s t es [])
    (hintended : Finds io (effectiveEpgId tuned) s.checks (some intended))
    (hlisted : Finds io (listedEpgId subject) s.checks listed)
    (hwarranted : Warranted intended es (∃ streamId, SiblingDiffered es streamId) outcome)
    (hsilent : silent → outcome.Silent) (hu : Wrote t subject listed outcome u) :
    Leaves io s tuned subject silent u := by
  obtain ⟨new, hnew, hquiet, hexplained⟩ := hu
  refine ⟨es, new, by simpa using hs.trans hnew, fun h => hquiet (hsilent h), ?_⟩
  rintro c hc hverdict
  rcases hexplained c hc hverdict with hother | ⟨prior, hprior, hmislabeled, rfl⟩
  · exact .carried hintended hlisted hother hwarranted
  · exact absurd rfl hwarranted

theorem leaves_of_noSibling (hlisted : Finds io (listedEpgId subject) s.checks listed)
    (hsilent : ¬ silent)
    (hu : Wrote s subject listed (.unknown noSiblingReason none) u) :
    Leaves io s tuned subject silent u := by
  obtain ⟨new, hnew, -, hexplained⟩ := hu
  refine ⟨[], new, hnew, fun h => absurd h hsilent, ?_⟩
  rintro c hc hverdict
  rcases hexplained c hc hverdict with - | ⟨prior, hprior, hmislabeled, rfl⟩
  exact .restamped prior rfl hprior hmislabeled hlisted

/-- **The comparison**: a verdict unless a query failed, and each candidate at most once. -/
theorem wp_compareAgainst {candidates : List Candidate} {mode : Mode ω} {wanted : ω → Bool × ω}
    {gapMs : ℕ} (hs : Since s t [] []) :
    Wp (compareAgainst io F subject intended candidates mode wanted gapMs)
      (fun r u => ∃ es, Since s u es [] ∧ TriedOnce candidates es ∧
        Warranted intended es (∃ streamId, SiblingDiffered es streamId) r.1 ∧
        ∀ streamId, r.2 = some streamId → SiblingDiffered es streamId)
      (fun u => Failed io ∧ ∃ es, Since s u es [] ∧ TriedOnce candidates es) t := by
  refine wp_compareFrom ?_ hs ⟨.refl candidates, nofun⟩
  split <;> decide

theorem wp_feedCheckCandidates {epg : String} {Q : List Candidate → Checking ω → Prop}
    {E : Checking ω → Prop} (hQ : ∀ list w, Q list { s with world := w })
    (hE : ∀ w, Failed io → E { s with world := w }) :
    Wp (feedCheckCandidates io subject epg) Q E s := by
  refine wp_attempt (fun list _ => hQ list _) fun hnone => ?_
  exact hE _ ⟨s.world, .inr ⟨subject, epg, hnone⟩⟩

theorem wp_checkFeedStandalone {wanted : ω → Bool × ω} :
    Wp (checkFeedStandalone io F subject wanted)
      (fun outcome => Leaves io s subject subject outcome.Silent)
      (fun t => Failed io ∧ Leaves io s subject subject False t) s := by
  rw [checkFeedStandalone, wp_bind]
  refine wp_query (fun catalog w hcatalog => ?_) fun w hw => ⟨hw, leaves_nothing (.world w)⟩
  split
  · exact leaves_nothing (.world w)
  rename_i intended hintended
  rw [wp_bind]
  refine wp_query (fun catalog' w' hcatalog' => ?_) fun w' hw =>
    ⟨hw, leaves_nothing (.world w')⟩
  have hintended : Finds io (effectiveEpgId subject) s.checks (some intended) :=
    ⟨_, catalog, hcatalog, hintended⟩
  have hlisted : Finds io (listedEpgId subject) s.checks
      (listedEpgId subject catalog' s.checks) := ⟨_, catalog', hcatalog', rfl⟩
  rw [wp_bind]
  refine wp_feedCheckCandidates (fun list w'' => ?_) fun w'' hw =>
    ⟨hw, leaves_nothing (.world w'')⟩
  rw [wp_ite]
  split
  · simp only [wp_bind, wp_ask]
    refine (wp_recordOutcome (s := s) (.world _)).mono ?_ ?_
    · rintro _ u hu
      exact leaves_of_noSibling hlisted not_false hu
    · rintro u ⟨hfailed, hu⟩
      exact ⟨hfailed, leaves_of_noSibling hlisted not_false hu⟩
  · rw [wp_bind]
    refine (wp_compareAgainst (s := s) (.world w'')).mono ?_ ?_
    · rintro ⟨outcome, differed⟩ u ⟨es, hu, -, hwarranted, -⟩
      rw [wp_bind]
      refine (wp_recordBoth (.world u.world)).mono ?_ ?_
      · rintro _ v hv
        exact leaves_of_wrote hu hintended hlisted hwarranted (fun h => h) hv
      · rintro v ⟨hfailed, hv⟩
        exact ⟨hfailed, leaves_of_wrote hu hintended hlisted hwarranted False.elim hv⟩
    · rintro u ⟨hfailed, es, hu, -⟩
      exact ⟨hfailed, leaves_nothing hu⟩

theorem wp_warmUp {startedAtMs : ℤ} {isActive : ω → Bool × ω}
    {Q : Option Bool → Checking ω → Prop} {E : Checking ω → Prop} :
    ∀ {rounds : ℕ} {s : Checking ω}, (∀ b w, Q b { s with world := w }) →
      Wp (warmUp io startedAtMs isActive rounds) Q E s
  | 0, s, hQ => hQ none s.world
  | rounds + 1, s, hQ => by
    simp only [warmUp, sleep, wp_bind, wp_ask, wp_ite, wp_pure]
    split
    · split
      · exact hQ _ _
      · exact wp_warmUp fun b w => hQ b w
    · exact hQ _ _

theorem wp_recordLive {own : Bool} (ht : Since s t [] []) :
    Wp (recordLive io F own subject listed outcome) (fun _ => Wrote s subject listed outcome)
      (fun u => Failed io ∧ Wrote s subject listed outcome u) t := by
  rw [recordLive, wp_ite]
  split
  · exact wp_recordBoth ht
  · exact wrote_nothing ht

theorem wp_freshCheck {Q : Option FeedCheck → Checking ω → Prop} {E : Checking ω → Prop}
    (hQ : ∀ prior w, Q prior { s with world := w })
    (hE : ∀ w, Failed io → E { s with world := w }) :
    Wp (freshCheck io F subject listed) Q E s := by
  rw [freshCheck, wp_bind]
  refine wp_query (fun _ w _ => ?_) hE
  split
  · exact hQ _ _
  · exact hQ _ _

theorem wp_checkLiveSession {r : LiveSessionRef} {isActive : ω → Bool × ω} {rounds : ℕ} :
    Wp (checkLiveSession io F r isActive rounds)
      (fun check => Leaves io s r.tuned r.dialed (∀ c ∈ check, c.outcome.Silent))
      (fun t => Failed io ∧ Leaves io s r.tuned r.dialed False t) s := by
  -- a query that fails before anything was recorded
  have hfail (w : ω) (h : Failed io) :
      Failed io ∧ Leaves io s r.tuned r.dialed False { s with world := w } :=
    ⟨h, leaves_nothing (.world w)⟩
  rw [checkLiveSession, wp_bind]
  refine wp_query (fun catalog w hcatalog => ?_) hfail
  split
  · exact leaves_nothing (.world w)
  rename_i intended hintended
  have hintended : Finds io (effectiveEpgId r.tuned) s.checks (some intended) :=
    ⟨_, catalog, hcatalog, hintended⟩
  rw [wp_bind]
  refine wp_query (fun catalog' w' hcatalog' => ?_) hfail
  have hlisted : Finds io (listedEpgId r.dialed) s.checks
      (listedEpgId r.dialed catalog' s.checks) := ⟨_, catalog', hcatalog', rfl⟩
  rw [wp_bind]
  refine wp_query (fun _ _ _ => ?_) hfail
  rw [wp_bind]
  refine wp_feedCheckCandidates (fun list _ => ?_) hfail
  rw [wp_bind]
  refine wp_freshCheck (fun prior w => ?_) hfail
  split
  · exact leaves_nothing (.world w)
  rw [wp_ite]
  split
  · -- nothing to compare
    rw [wp_bind]
    refine (wp_recordLive (s := s) (.world w)).mono ?_ ?_
    · rintro _ u hu
      exact leaves_of_noSibling hlisted (fun h => h _ rfl) hu
    · rintro u ⟨hfailed, hu⟩
      exact ⟨hfailed, leaves_of_noSibling hlisted not_false hu⟩
  rw [wp_bind]
  refine wp_warmUp fun warm w => ?_
  split
  · exact leaves_nothing (.world w)
  · exact leaves_nothing (.world w)
  · rw [wp_bind]
    refine (wp_compareAgainst (s := s) (.world w)).mono ?_ ?_
    · rintro ⟨outcome, differed⟩ u ⟨es, hu, -, hwarranted, -⟩
      rw [wp_bind]
      refine (wp_recordLive (.world u.world)).mono ?_ ?_
      · rintro _ v hv
        exact leaves_of_wrote hu hintended hlisted hwarranted (fun h => h _ rfl) hv
      · rintro v ⟨hfailed, hv⟩
        exact ⟨hfailed, leaves_of_wrote hu hintended hlisted hwarranted nofun hv⟩
    · rintro u ⟨hfailed, es, hu, -⟩
      exact ⟨hfailed, leaves_nothing hu⟩

end results

/-- **What feed checks say and record**, whatever the world answers. A comparison comes to a verdict
unless a query failed, and tries each candidate at most once; it says that a stream carries the
channel of a related one only if a sibling clearly differed and the two channels list different
programmes. A check that was aborted, or found its verdict on record, records nothing, and a
mislabel has grounds. -/
theorem verdicts_have_grounds {ω : Type} (io : FeedIo ω) (F : Formats) (s : Checking ω) :
    (∀ subject intended candidates mode wanted gapMs,
      Wp (compareAgainst io F subject intended candidates mode wanted gapMs)
        (fun r t => ∃ es, Since s t es [] ∧ TriedOnce candidates es ∧
          Warranted intended es (∃ streamId, SiblingDiffered es streamId) r.1 ∧
          ∀ streamId, r.2 = some streamId → SiblingDiffered es streamId)
        (fun t => Failed io ∧ ∃ es, Since s t es [] ∧ TriedOnce candidates es) s) ∧
    (∀ streamId wanted, Wp (checkFeedStandalone io F streamId wanted)
      (fun outcome => Leaves io s streamId streamId outcome.Silent)
      (fun t => Failed io ∧ Leaves io s streamId streamId False t) s) ∧
    ∀ r isActive rounds, Wp (checkLiveSession io F r isActive rounds)
      (fun check => Leaves io s r.tuned r.dialed (∀ c ∈ check, c.outcome.Silent))
      (fun t => Failed io ∧ Leaves io s r.tuned r.dialed False t) s := by
  refine ⟨?_, ?_, ?_⟩
  · rintro subject intended candidates mode wanted gapMs
    exact wp_compareAgainst (.world s.world)
  · rintro streamId wanted
    exact wp_checkFeedStandalone
  · rintro r isActive rounds
    exact wp_checkLiveSession

/-- A stream that was found to carry another channel, with no other stream to compare it with. -/
def lonely : FeedIo Unit where
  captureUpstream _ _ w := (none, w)
  captureSegments _ w := (0, w)
  frames _ w := (⟨false, false, []⟩, w)
  kill _ w := w
  nowMs w := (1761350400000, w)
  sleep _ w := w
  sessionSegments _ w := ([], w)
  compare _ _ w := (none, w)
  query w := (some ⟨[⟨1, some "showtime.us", none⟩], []⟩, w)
  candidates _ _ w := (some [], w)

def plain : Formats where
  iso _ := "2025-10-25T00:00:00.000Z"
  millis _ := none
  lower s := s.map Char.toLower
  space c := c = ' '
  alnum := Char.isAlphanum

def relabeled : Checking Unit where
  world := ()
  checks := (∅ : Checks).insert 1 ⟨1, .mislabeled, some "showtime.us", some "showtime2.us", none,
    none, none, "2025-10-24T00:00:00.000Z"⟩

/-- **A mislabel is recorded without a carry**: the one on record is stamped again by a check that
compares nothing. -/
theorem mislabeled_without_carry :
    ¬ Wp (checkFeedStandalone lonely plain 1 fun w => (true, w))
      (fun outcome t => ∀ c ∈ t.recorded, c.verdict = .mislabeled →
        ∃ epgId matched score, outcome = .carries epgId matched score false)
      (fun _ => True) relabeled := by
  intro h
  have hrun : ∃ t c, checkFeedStandalone lonely plain 1 (fun w => (true, w)) relabeled =
      (some (.unknown noSiblingReason none), t) ∧ t.recorded = [c] ∧ c.verdict = .mislabeled :=
    ⟨_, _, rfl, rfl, rfl⟩
  obtain ⟨t, c, hrun, hrecorded, hverdict⟩ := hrun
  rw [Wp, hrun] at h
  obtain ⟨_, _, _, hcarries⟩ := h c (by rw [hrecorded]; exact List.mem_singleton_self c) hverdict
  exact absurd hcarries (by simp)

end EmeraldExchange.Iptv.Feeds
