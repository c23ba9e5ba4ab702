import EmeraldExchange.Auth.DeviceTokens
import EmeraldExchange.Lib.Runs

/-!
# Pairing a device by a code

A device without a browser shows a code (`start`); a member who is signed in elsewhere claims it
(`claim`), and the next poll of the device (`poll`) mints a device token for that member.

The three requests are a few statements each, and statements of other requests may come between any
two of them: what is modelled is the requests under way, each before its next statement. A request
reads the time once, when it begins. What holds of every run is in `Pairing`.

Codes, and the identifiers of servers and tokens, are random: they are given to the statement that
stores them.
-/

namespace EmeraldExchange.Auth

open Contracts

def codeLength : ℕ := 8
def linkCodeTtlSecs : ℤ := 600
def pollIntervalSecs : ℤ := 2

/-- Trimmed, upper-cased, spaces and dashes dropped. A character may have several in upper case. -/
def normalizeCode (toUppercase : Char → List Char) (raw : Option String) : String :=
  String.ofList <| ((trimMatches jsSpace (raw.getD "").toList).flatMap toUppercase).filter
    fun c => !jsSpace c && c ≠ '-'

/-- A trimmed field of a body; empty where there is none. -/
def trimmed (field : Option String) : String := jsTrim (field.getD "")

def codeShape (code : String) : Bool :=
  code.toList.length = codeLength &&
    code.toList.all fun c => ('A' ≤ c && c ≤ 'Z') || ('2' ≤ c && c ≤ '9')

structure LinkServer (Key : Type) where
  jwe : Jwe Key
  /-- None without a secret: no token is minted then. -/
  deviceKeys : Option (Keys Key)
  iso : ℤ → String
  toUppercase : Char → List Char

structure LinkDevice where
  deviceId : String
  deviceName : String
  devicePlatform : String
  deriving DecidableEq

def LinkCode.opened (device : LinkDevice) (now : ℤ) : LinkCode where
  deviceId := device.deviceId
  deviceName := device.deviceName
  devicePlatform := device.devicePlatform
  createdAt := now
  expiresAt := now + linkCodeTtlSecs
  claimedSub := none
  claimedUsername := none
  claimedRole := none
  claimedAuthMode := none
  claimedAt := none
  consumedAt := none

def LinkCode.bound (row : LinkCode) (caller : Session) (now : ℤ) : LinkCode :=
  { row with
    claimedSub := some caller.sub
    claimedUsername := some caller.username
    claimedRole := some caller.role.asStr
    claimedAuthMode := some caller.authMode.asStr
    claimedAt := some now }

structure Polled (Key : Type) where
  code : String
  deviceId : String
  now : ℤ
  row : LinkCode
  sub : String
  authMode : AuthMode
  keys : Keys Key

def Polled.username {Key : Type} (p : Polled Key) : String := p.row.claimedUsername.getD p.sub

def Polled.role {Key : Type} (p : Polled Key) : Role :=
  (p.row.claimedRole.bind Role.parse).getD .user

def Polled.input {Key : Type} (p : Polled Key) (serverId : String) : MintInput where
  sub := p.sub
  role := p.role
  authMode := p.authMode
  deviceId := p.row.deviceId
  devicePlatform := p.row.devicePlatform
  deviceName := p.row.deviceName
  username := some p.username
  serverId := serverId

/-- **A request under way**, by the statement that is next. -/
inductive LinkRequest (Key : Type)
  /-- `DELETE` of codes long expired. -/
  | starting (device : LinkDevice) (now : ℤ)
  /-- `INSERT` of a new code. -/
  | inserting (device : LinkDevice) (now : ℤ)
  /-- `SELECT` by a claim. -/
  | claiming (caller : Session) (code : String) (now : ℤ)
  /-- The guarded `UPDATE` of a claim. -/
  | binding (caller : Session) (code : String) (now : ℤ) (row : LinkCode)
  /-- `SELECT` by a poll. -/
  | polling (code deviceId : String) (now : ℤ)
  /-- The guarded `UPDATE` of a poll. -/
  | consuming (p : Polled Key)
  /-- The identifier of the server is next. -/
  | consumed (p : Polled Key)
  /-- The `INSERT` of the token is next. -/
  | minting (p : Polled Key) (serverId : String)

inductive LinkAnswer
  | started (code : String) (expiresIn interval : ℤ)
  | claimed (deviceName devicePlatform : String)
  | pending
  | denied (reason : String)
  | authorized (token serverId sub username : String) (role : Role)
  | error (status : ℕ) (error : String)
  deriving DecidableEq

def LinkAnswer.internal : LinkAnswer := .error 500 "internal"

structure Minted where
  code : String
  /-- The device of the poll. -/
  deviceId : String
  sub : String
  jti : String
  /-- When the poll began. -/
  polledAt : ℤ
  /-- When the token was minted. -/
  mintedAt : ℤ
  deriving DecidableEq

inductive LinkEvent
  | started (code deviceId : String) (expiresAt : ℤ)
  /-- The guarded update of a claim took effect. -/
  | claimed (code sub : String)
  | minted (m : Minted)
  deriving DecidableEq

/-- **The pairing of devices**: the database, the requests under way, and what happened, the latest
first. -/
structure Pairing (Key : Type) where
  db : Db
  serverId : Option String
  clock : ℤ
  requests : List (LinkRequest Key)
  answers : List LinkAnswer
  log : List LinkEvent

inductive LinkAct
  /-- The clock shows another time. -/
  | clock (now : ℤ)
  | start (deviceId deviceName devicePlatform : Option String)
  | claim (caller : Session) (code : Option String)
  | poll (code deviceId : Option String)
  /-- The next statement of a request, with what it generates. -/
  | statement (n : ℕ) (generated : String) (fault : Bool)
  /-- The connection of a request is closed. -/
  | drop (n : ℕ)

namespace Pairing

variable {Key : Type} (srv : LinkServer Key)

def start (db : Db) (serverId : Option String) (now : ℤ) : Pairing Key :=
  ⟨{ db with deviceLinkCodes := ∅ }, serverId, now, [], [], []⟩

def claimVerdict (caller : Session) (code : String) (now : ℤ) :
    Option LinkCode → LinkRequest Key ⊕ LinkAnswer
  | none => .inr (.error 404 "unknown_code")
  | some row =>
    if row.expiresAt < now then .inr (.error 410 "expired")
    else if row.claimedSub.isSome then .inr (.error 409 "already_claimed")
    else .inl (.binding caller code now row)

/-- A poll's verdict on what it read. A wrong device is answered exactly like an unknown code. -/
def pollVerdict (code deviceId : String) (now : ℤ) :
    Option LinkCode → LinkRequest Key ⊕ LinkAnswer
  | none => .inr (.denied "unknown_code")
  | some row =>
    if row.deviceId ≠ deviceId ∨ row.consumedAt.isSome then .inr (.denied "unknown_code")
    else if row.expiresAt < now then .inr (.denied "expired")
    else match row.claimedSub with
      | none => .inr .pending
      | some sub =>
        match row.claimedAuthMode.bind AuthMode.parse with
        | none => .inr (.denied "unknown_code")
        | some authMode =>
          match srv.deviceKeys with
          | none => .inr .internal
          | some keys => .inl (.consuming ⟨code, deviceId, now, row, sub, authMode, keys⟩)

/-- **The next statement of a request**: what it does, and the request after it or the answer. -/
def statement (s : Pairing Key) (generated : String) :
    LinkRequest Key → Pairing Key × (LinkRequest Key ⊕ LinkAnswer)
  | .starting device now =>
    let kept := s.db.deviceLinkCodes.retain fun row => !(row.expiresAt < now - linkCodeTtlSecs)
    ({ s with db := { s.db with deviceLinkCodes := kept } }, .inl (.inserting device now))
  | .inserting device now =>
    if (s.db.deviceLinkCodes.lookup generated).isSome then (s, .inr .internal)
    else
      let codes := s.db.deviceLinkCodes.insert generated (.opened device now)
      ({ s with
          db := { s.db with deviceLinkCodes := codes }
          log := .started generated device.deviceId (now + linkCodeTtlSecs) :: s.log },
        .inr (.started generated linkCodeTtlSecs pollIntervalSecs))
  | .claiming caller code now =>
    (s, claimVerdict caller code now (s.db.deviceLinkCodes.lookup code))
  | .binding caller code now row =>
    -- guarded, so that two racing claims cannot both bind
    if (s.db.deviceLinkCodes.lookup code).any fun r => r.claimedSub.isNone then
      let codes := s.db.deviceLinkCodes.modify code fun r => r.bound caller now
      ({ s with
          db := { s.db with deviceLinkCodes := codes }
          log := .claimed code caller.sub :: s.log },
        .inr (.claimed row.deviceName row.devicePlatform))
    else (s, .inr (.error 409 "already_claimed"))
  | .polling code deviceId now =>
    (s, pollVerdict srv code deviceId now (s.db.deviceLinkCodes.lookup code))
  | .consuming p =>
    -- guarded, so that two racing polls mint one token
    if (s.db.deviceLinkCodes.lookup p.code).any fun r => r.consumedAt.isNone then
      let codes := s.db.deviceLinkCodes.modify p.code fun r => { r with consumedAt := some p.now }
      ({ s with db := { s.db with deviceLinkCodes := codes } }, .inl (.consumed p))
    else (s, .inr (.denied "unknown_code"))
  | .consumed p =>
    let serverId := s.serverId.getD generated
    ({ s with serverId := some serverId }, .inl (.minting p serverId))
  | .minting p serverId =>
    match mint srv.jwe srv.iso p.keys (p.input serverId) generated s.clock false s.db with
    | (.error _, _) => (s, .inr .internal)
    | (.ok token, db) =>
      ({ s with
          db
          log := .minted ⟨p.code, p.deviceId, p.sub, generated, p.now, s.clock⟩ :: s.log },
        .inr (.authorized token serverId p.sub p.username p.role))

def begin (s : Pairing Key) (r : LinkRequest Key) : Pairing Key :=
  { s with requests := s.requests ++ [r] }

def answer (s : Pairing Key) (a : LinkAnswer) : Pairing Key := { s with answers := a :: s.answers }

/-- **One step.** -/
def step (s : Pairing Key) : LinkAct → Option (Pairing Key)
  | .clock now => some { s with clock := now }
  | .start deviceId deviceName devicePlatform =>
    let device : LinkDevice := ⟨trimmed deviceId, trimmed deviceName, trimmed devicePlatform⟩
    if device.deviceId = "" ∨ device.deviceName = "" ∨ device.devicePlatform = "" then
      some (s.answer (.error 400 "missing_device_fields"))
    else some (s.begin (.starting device s.clock))
  | .claim caller code =>
    let code := normalizeCode srv.toUppercase code
    if !codeShape code then some (s.answer (.error 400 "invalid_code"))
    else some (s.begin (.claiming caller code s.clock))
  | .poll code deviceId =>
    let code := normalizeCode srv.toUppercase code
    if !codeShape code ∨ trimmed deviceId = "" then
      some (s.answer (.error 400 "invalid_request"))
    else some (s.begin (.polling code (trimmed deviceId) s.clock))
  | .statement n generated fault => s.requests[n]?.map fun r =>
    let rest := { s with requests := s.requests.eraseIdx n }
    if fault then rest.answer .internal
    else match rest.statement srv generated r with
      | (t, .inl r') => t.begin r'
      | (t, .inr a) => t.answer a
  | .drop n => some { s with requests := s.requests.eraseIdx n }

end Pairing

end EmeraldExchange.Auth
