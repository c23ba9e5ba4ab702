import EmeraldExchange.Auth.Session
import EmeraldExchange.Gateway.ItemLocks

/-!
# Likes, dislikes and the household veto

A member's signal on a title is kept in a store of signals, by member; a dislike is a veto of the
household as well, which is kept in another. Every request writes the one store and then the other,
and takes back the first where the second fails. The requests on a title come one after the other
(`ItemLocks`), while a member's account may be erased at any time.

A request is what is left of it: the store operation that is next, each of which the store runs by
itself. That no dislike is left without its veto is in `Veto`.
-/

namespace EmeraldExchange.Gateway

open Auth

/-! ### Titles -/

def maxTitleLen : ℕ := 200

/-- `s.slice(0, n)` in UTF-16 code units; a pair that is cut is dropped. -/
def jsSlice : ℕ → List Char → List Char
  | _, [] => []
  | n, c :: cs =>
    let units := if c.toNat ≤ 0xffff then 1 else 2
    if n < units then [] else c :: jsSlice (n - units) cs

/-- Controls become blanks, blanks collapse, the ends are trimmed, and the length is capped. -/
def sanitizeTitle (raw : String) : String :=
  let spaced := raw.toList.map fun c => if c.toNat ≤ 0x1f || c.toNat = 0x7f then ' ' else c
  let words := (spaced.splitOnP jsSpace).filter (· ≠ [])
  String.ofList (jsSlice maxTitleLen (List.intercalate [' '] words))

inductive Kind
  | movie | tv
  deriving DecidableEq

inductive Signal
  | like | dislike
  deriving DecidableEq

structure IdTitle where
  id : ℕ
  title : String
  deriving DecidableEq

/-! ### The signals -/

structure KindLists where
  liked : List IdTitle
  disliked : List IdTitle
  deriving DecidableEq

structure UserFeedback where
  movie : KindLists
  tv : KindLists
  deriving DecidableEq

def UserFeedback.empty : UserFeedback := ⟨⟨[], []⟩, ⟨[], []⟩⟩

def UserFeedback.kind (u : UserFeedback) : Kind → KindLists
  | .movie => u.movie
  | .tv => u.tv

def UserFeedback.setKind (u : UserFeedback) (k : Kind) (lists : KindLists) : UserFeedback :=
  match k with
  | .movie => { u with movie := lists }
  | .tv => { u with tv := lists }

abbrev FeedbackFile := Table String UserFeedback

/-- The signals of a member, none where there are none. -/
def FeedbackFile.user (file : FeedbackFile) (sub : String) : UserFeedback :=
  (file.lookup sub).getD .empty

/-- One item's signal, or none: like and dislike exclude each other, the item moves to the tail, and
an empty title never overwrites a known one. -/
def KindLists.set (lists : KindLists) (id : ℕ) (title : String) (next : Option Signal) :
    KindLists :=
  let known := ((lists.liked ++ lists.disliked).find? fun e => e.id = id).map (·.title)
  let entry : IdTitle := ⟨id, if title = "" then known.getD "" else title⟩
  let liked := lists.liked.filter (·.id ≠ id)
  let disliked := lists.disliked.filter (·.id ≠ id)
  match next with
  | some .like => ⟨liked ++ [entry], disliked⟩
  | some .dislike => ⟨liked, disliked ++ [entry]⟩
  | none => ⟨liked, disliked⟩

/-- **Set or clear one item's signal.** -/
def FeedbackFile.set (file : FeedbackFile) (sub : String) (kind : Kind) (id : ℕ) (title : String)
    (next : Option Signal) : FeedbackFile :=
  let user := file.user sub
  Table.insert sub (user.setKind kind ((user.kind kind).set id (sanitizeTitle title) next)) file

/-- Drop every signal of a member, if there are any. -/
def FeedbackFile.clearUser (file : FeedbackFile) (sub : String) : Option FeedbackFile :=
  if (file.lookup sub).isSome then some (Table.erase sub file) else none

/-- **Whether a member other than the caller dislikes a title.** -/
def FeedbackFile.anotherUserDislikes (file : FeedbackFile) (caller : String) (kind : Kind)
    (id : ℕ) : Bool :=
  file.entries.any fun e => e.1 ≠ caller && (e.2.kind kind).disliked.any (·.id = id)

/-! ### The household veto -/

/-- The titles that nobody is to be suggested. -/
structure Rejections where
  movie : List IdTitle
  tv : List IdTitle
  deriving DecidableEq

def Rejections.kind (r : Rejections) : Kind → List IdTitle
  | .movie => r.movie
  | .tv => r.tv

def Rejections.setKind (r : Rejections) (k : Kind) (rows : List IdTitle) : Rejections :=
  match k with
  | .movie => { r with movie := rows }
  | .tv => { r with tv := rows }

def Rejections.ids (r : Rejections) (kind : Kind) : List ℕ := (r.kind kind).map (·.id)

/-- **Veto a title.** A new title upgrades a row that is there, an empty one never blanks it. -/
def Rejections.add (r : Rejections) (kind : Kind) (id : ℕ) (title : String) :
    Option Rejections :=
  let title := sanitizeTitle title
  let rows := r.kind kind
  if (rows.find? fun e => e.id = id).any fun e => title = "" || e.title = title then none
  else match rows.findIdx? (·.id = id) with
    | some i => some (r.setKind kind (rows.modify i fun e => { e with title }))
    | none => some (r.setKind kind (rows ++ [⟨id, title⟩]))

/-- **Lift the veto of a title.** -/
def Rejections.remove (r : Rejections) (kind : Kind) (id : ℕ) : Option Rejections :=
  if (r.kind kind).any (·.id = id) then
    some (r.setKind kind ((r.kind kind).filter (·.id ≠ id)))
  else none

/-- **A store's update**: whether it worked, and what it leaves. Nothing is written where nothing
changes; a store that cannot be read and a write that fails leave what was there. -/
def updateStore {α : Type} (fault : Bool) (current : α) (next : Option α) : Bool × α :=
  match next with
  | none => (!fault, current)
  | some next => if fault then (false, current) else (true, next)

structure Stores where
  feedback : FeedbackFile
  rejections : Rejections

/-! ### The requests -/

/-- **The store operation that is next** in a request. -/
inductive FeedbackStep
  /-- `set_signal` begins: what the member said so far. -/
  | readMine (signal : Signal) (title : String)
  /-- A dislike: whether the title is vetoed. -/
  | readIds (title : String)
  /-- The veto first: if it fails, nothing personal has changed. -/
  | addVeto (title : String) (wasRejected : Bool)
  | setDislike (title : String) (wasRejected : Bool)
  /-- It failed: undo the veto, unless somebody else dissents. -/
  | undoRead
  | undoVeto
  /-- A like of what the member disliked: whether another member still does. -/
  | likeRead (title : String) (prior : IdTitle)
  | dropVeto (title : String) (prior : IdTitle)
  | setLike (title : String) (prior : Option IdTitle) (vetoCleared : Bool)
  /-- It failed: restore the veto. -/
  | restoreVeto (title : String)
  /-- `clear_signal` begins: what the member said so far. -/
  | readActual
  | clear (actual : Option Signal) (priorTitle : String)
  /-- A dislike is gone: whether another member still dissents. -/
  | clearRead (priorTitle : String)
  | clearVeto (priorTitle : String)
  /-- It failed: restore the dislike. -/
  | restoreDislike (priorTitle : String)
  deriving DecidableEq

def FeedbackStep.writes : FeedbackStep → Bool
  | .readMine _ _ | .readIds _ | .undoRead | .likeRead _ _ | .readActual | .clearRead _ => false
  | .addVeto _ _ | .setDislike _ _ | .undoVeto | .dropVeto _ _ | .setLike _ _ _ | .restoreVeto _
  | .clear _ _ | .clearVeto _ | .restoreDislike _ => true

/-- **What an operation leaves**: the stores, whether a write failed, and the next operation, or
whether the request is answered with ok. -/
structure FeedbackOutcome where
  stores : Stores
  failed : Bool
  next : FeedbackStep ⊕ Bool

def readStore (stores : Stores) (next : FeedbackStep ⊕ Bool) : FeedbackOutcome :=
  ⟨stores, false, next⟩

def writeFeedback (stores : Stores) (fault : Bool) (next : FeedbackFile)
    (ok failed : FeedbackStep ⊕ Bool) : FeedbackOutcome :=
  let r := updateStore fault stores.feedback (some next)
  ⟨{ stores with feedback := r.2 }, fault, if r.1 then ok else failed⟩

def writeRejections (stores : Stores) (fault : Bool) (next : Option Rejections)
    (ok failed : FeedbackStep ⊕ Bool) : FeedbackOutcome :=
  let r := updateStore fault stores.rejections next
  ⟨{ stores with rejections := r.2 }, fault && next.isSome, if r.1 then ok else failed⟩

/-- What `set_signal` does with what the member said so far. -/
def setSignalAfterRead (mine : KindLists) (id : ℕ) (title : String) : Signal → FeedbackStep
  | .dislike => .readIds title
  | .like =>
    match mine.disliked.find? fun e => e.id = id with
    | some prior => .likeRead title prior
    | none => .setLike title none false

/-- What `clear_signal` does with it. -/
def clearSignalAfterRead (mine : KindLists) (id : ℕ) : FeedbackStep :=
  let priorDislike := mine.disliked.find? fun e => e.id = id
  let priorLike := mine.liked.find? fun e => e.id = id
  let actual : Option Signal :=
    if priorDislike.isSome then some .dislike else if priorLike.isSome then some .like else none
  .clear actual (((priorDislike.or priorLike).map (·.title)).getD "")

/-- **Run the next operation of a request** by a member on a title. -/
def FeedbackStep.run (stores : Stores) (sub : String) (kind : Kind) (id : ℕ) (fault : Bool) :
    FeedbackStep → FeedbackOutcome
  | .readMine signal title =>
    let mine := (stores.feedback.user sub).kind kind
    readStore stores (if fault then .inr false else .inl (setSignalAfterRead mine id title signal))
  | .readIds title =>
    let wasRejected := (stores.rejections.ids kind).contains id
    readStore stores (if fault then .inr false else .inl (.addVeto title wasRejected))
  | .addVeto title wasRejected =>
    writeRejections stores fault (stores.rejections.add kind id title)
      (.inl (.setDislike title wasRejected)) (.inr false)
  | .setDislike title wasRejected =>
    writeFeedback stores fault (stores.feedback.set sub kind id title (some .dislike))
      (.inr true) (if wasRejected then .inr false else .inl .undoRead)
  | .undoRead =>
    -- where it cannot be read, somebody dissents
    let dissent := fault || stores.feedback.anotherUserDislikes sub kind id
    readStore stores (if dissent then .inr false else .inl .undoVeto)
  | .undoVeto =>
    writeRejections stores fault (stores.rejections.remove kind id) (.inr false) (.inr false)
  | .likeRead title prior =>
    readStore stores <|
      if fault then .inr false
      else if stores.feedback.anotherUserDislikes sub kind id then
        .inl (.setLike title (some prior) false)
      else .inl (.dropVeto title prior)
  | .dropVeto title prior =>
    writeRejections stores fault (stores.rejections.remove kind id)
      (.inl (.setLike title (some prior) true)) (.inr false)
  | .setLike title prior vetoCleared =>
    writeFeedback stores fault (stores.feedback.set sub kind id title (some .like)) (.inr true)
      (if vetoCleared then .inl (.restoreVeto ((prior.map (·.title)).getD title)) else .inr false)
  | .restoreVeto title =>
    writeRejections stores fault (stores.rejections.add kind id title) (.inr false) (.inr false)
  | .readActual =>
    let mine := (stores.feedback.user sub).kind kind
    readStore stores (if fault then .inr false else .inl (clearSignalAfterRead mine id))
  | .clear actual priorTitle =>
    writeFeedback stores fault (stores.feedback.set sub kind id "" none)
      (if actual = some .dislike then .inl (.clearRead priorTitle) else .inr true) (.inr false)
  | .clearRead priorTitle =>
    readStore stores <|
      if fault then .inl (.restoreDislike priorTitle)
      else if stores.feedback.anotherUserDislikes sub kind id then .inr true
      else .inl (.clearVeto priorTitle)
  | .clearVeto priorTitle =>
    writeRejections stores fault (stores.rejections.remove kind id) (.inr true)
      (.inl (.restoreDislike priorTitle))
  | .restoreDislike priorTitle =>
    writeFeedback stores fault (stores.feedback.set sub kind id priorTitle (some .dislike))
      (.inr false) (.inr false)

/-! ### The requests over time -/

/-- A request: by whom, whether a write of it has failed, and what is next. -/
structure FeedbackRequest where
  sub : String
  failed : Bool
  next : FeedbackStep
  deriving DecidableEq

/-- The requests, under the locks of their titles, and the stores. -/
structure FeedbackSystem where
  locks : ItemLocks (Kind × ℕ) FeedbackRequest
  stores : Stores

inductive FeedbackAct
  | setSignal (sub : String) (kind : Kind) (id : ℕ) (signal : Signal) (title : String)
  | clearSignal (sub : String) (kind : Kind) (id : ℕ)
  | acquire (n : ℕ)
  /-- The next operation of the request that is running. -/
  | run (n : ℕ) (fault : Bool)
  | cleanUp (n : ℕ)
  | leave (n : ℕ)
  /-- An account is erased: `clear_user`, which no lock holds up. -/
  | erase (sub : String) (fault : Bool)

namespace FeedbackSystem

def start (stores : Stores) : FeedbackSystem := ⟨.start, stores⟩

def lockStep (s : FeedbackSystem) (a : LockAct (Kind × ℕ) FeedbackRequest) :
    Option FeedbackSystem :=
  (s.locks.step a).map fun locks => { s with locks }

/-- **One step.** -/
def step (s : FeedbackSystem) : FeedbackAct → Option FeedbackSystem
  | .setSignal sub kind id signal title =>
    s.lockStep (.arrive (kind, id) ⟨sub, false, .readMine signal title⟩)
  | .clearSignal sub kind id => s.lockStep (.arrive (kind, id) ⟨sub, false, .readActual⟩)
  | .acquire n => s.lockStep (.acquire n)
  | .run n fault =>
    match s.locks.tasks[n]? with
    | some ⟨(kind, id), _, .running w⟩ =>
      let o := w.next.run s.stores w.sub kind id fault
      match o.next with
      | .inl next =>
        ({ s with stores := o.stores }).lockStep (.goOn n ⟨w.sub, w.failed || o.failed, next⟩)
      | .inr _ => ({ s with stores := o.stores }).lockStep (.finish n)
    | _ => none
  | .cleanUp n => s.lockStep (.cleanUp n)
  | .leave n => s.lockStep (.leave n)
  | .erase sub fault =>
    let feedback := (updateStore fault s.stores.feedback (s.stores.feedback.clearUser sub)).2
    some { s with stores := { s.stores with feedback } }

/-- Whether a write of the request that would run has failed, and it would write again. -/
def failedBefore (s : FeedbackSystem) (n : ℕ) : Bool :=
  match s.locks.tasks[n]? with
  | some ⟨_, _, .running w⟩ => w.failed && w.next.writes
  | _ => false

/-- **In each request at most one write fails.** -/
def OneFailure (s : FeedbackSystem) : FeedbackAct → Prop
  | .run n fault => s.failedBefore n → fault = false
  | _ => True

instance (s : FeedbackSystem) : ∀ a, Decidable (OneFailure s a)
  | .run _ _ => inferInstanceAs (Decidable (_ = true → _ = false))
  | .setSignal _ _ _ _ _ => inferInstanceAs (Decidable True)
  | .clearSignal _ _ _ => inferInstanceAs (Decidable True)
  | .acquire _ => inferInstanceAs (Decidable True)
  | .cleanUp _ => inferInstanceAs (Decidable True)
  | .leave _ => inferInstanceAs (Decidable True)
  | .erase _ _ => inferInstanceAs (Decidable True)

end FeedbackSystem

end EmeraldExchange.Gateway
