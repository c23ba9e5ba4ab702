import EmeraldExchange.Auth.DeadInvites
import EmeraldExchange.Auth.DeviceTokens
import EmeraldExchange.Lib.Utf8
import Mathlib.Data.List.MinMax

/-!
# Authenticating a request

A request is by whom its device token or its cookie names, and each is checked again against the
database: the subject must be a member still (`memberStatus`), and its role is the one of now
(`effectiveRole`), whatever role the token or the cookie claims
(`authenticate_ok`).

A request that sends a device token is decided by it alone: where it fails, the cookie is not
looked at (`authenticate_bearer`).

A cookie from plex.tv is checked there as well, at most once in a quarter of an hour. What plex.tv
answers, the times a request reads, and which of its statements fail are given to it.
-/

namespace EmeraldExchange.Auth

open Contracts

structure Principal where
  session : Session
  /-- The claims of a device token. -/
  device : Option DeviceClaims
  deriving DecidableEq

inductive Rejection
  | unauthenticated
  /-- The subject of a cookie is revoked or no member. -/
  | accessRevoked
  /-- A device token was sent and failed. -/
  | invalidBearer
  | adminOnly
  | internal
  deriving DecidableEq

/-- The status of an answer, its error and its reason. -/
def Rejection.response : Rejection → ℕ × String × Option String
  | .unauthenticated => (401, "unauthenticated", none)
  | .accessRevoked => (401, "unauthenticated", some "access_revoked")
  | .invalidBearer => (401, "unauthenticated", some "invalid_bearer")
  | .adminOnly => (403, "forbidden", some "admin_only")
  | .internal => (500, "internal", none)

def Rejection.clearsCookie : Rejection → Bool
  | .accessRevoked => true
  | _ => false

/-! ### The plex.tv check -/

structure GateEntry where
  checkedAt : ℤ
  /-- Write order, for the eviction. -/
  seq : ℕ
  /-- The token and the server the pass was for. -/
  fingerprint : String
  serverId : String
  deriving DecidableEq

/-- **The passes**, by subject. -/
structure PlexGate where
  seq : ℕ
  entries : Table String GateEntry

def gateTtlSecs : ℤ := 15 * 60
def gateMaxEntries : ℕ := 1000

/-- A pass for this token and server within the time it holds. -/
def PlexGate.fresh (gate : PlexGate) (sub fingerprint serverId : String) (now : ℤ) : Bool :=
  (gate.entries.lookup sub).any fun e =>
    now - e.checkedAt < gateTtlSecs && e.fingerprint = fingerprint && e.serverId = serverId

/-- Note a pass; where there are too many, the oldest goes. -/
def PlexGate.set (gate : PlexGate) (sub fingerprint serverId : String) (now : ℤ) : PlexGate :=
  let entries := gate.entries.insert sub ⟨now, gate.seq + 1, fingerprint, serverId⟩
  if entries.size ≤ gateMaxEntries then ⟨gate.seq + 1, entries⟩
  else match entries.entries.argmin fun e => e.2.seq with
    | some oldest => ⟨gate.seq + 1, entries.erase oldest.1⟩
    | none => ⟨gate.seq + 1, entries⟩

inductive Probe
  | ok
  | httpError (status : ℕ)
  | networkError
  deriving DecidableEq

/-! ### What a request finds -/

structure AuthServer (Key F : Type) where
  adminSubs : List String
  plexServerId : Option String
  /-- None without a secret: every device token is invalid then. -/
  deviceKeys : Option (Keys Key)
  jwe : Jwe Key
  cookieJwe : CookieJwe F
  iso : ℤ → String
  fingerprint : String → String

/-- **What happens to a request while it runs**: the times it reads, what plex.tv answers, and
which of its statements fail. -/
structure Circumstances where
  now : ℤ
  /-- When the passes are looked up, before and after waiting for another probe. -/
  gateNow : ℤ
  probeNow : ℤ
  /-- `datetime('now')` -/
  sqlNow : String
  probe : Probe
  verifyFault : Bool
  statusFault : Bool
  cascadeFault : Bool
  seenFault : Bool
  roleFault : Bool
  deriving DecidableEq

structure AuthStore where
  db : Db
  gate : PlexGate

variable {Key F : Type} (srv : AuthServer Key F) (c : Circumstances)

/-- `memberStatus`, which asks the database only for subjects that parse and are not listed. -/
def queryStatus (db : Db) (sub : String) : Except Error MemberStatus :=
  if c.statusFault ∧ validSub sub = true ∧ sub ∉ srv.adminSubs then .error .db
  else .ok (memberStatus db srv.adminSubs sub)

/-- `effectiveRole`, which asks the database only for subjects that parse and are not listed. -/
def queryRole (db : Db) (sub : String) : Except Error Role :=
  if c.roleFault ∧ validSub sub = true ∧ sub ∉ srv.adminSubs then .error .db
  else .ok (effectiveRole db srv.adminSubs sub)

/-- Why the tokens of a denied subject are revoked. -/
def denialReason (status : MemberStatus) : String :=
  if status = .revoked then "member_revoked" else "not_member"

/-- Revoke every device token of a denied subject. A failure does not mask the denial. -/
def cascadeOnDenial (db : Db) (sub reason : String) : Db :=
  (cascadeRevokeForSub db sub c.sqlNow reason c.cascadeFault).2

/-- Whether plex.tv still knows a token: only a 401 or a 403 says no. -/
def plexTokenLive (gate : PlexGate) (sub token serverId : String) : Bool × PlexGate :=
  if gate.fresh sub (srv.fingerprint token) serverId c.gateNow then (true, gate)
  else if gate.fresh sub (srv.fingerprint token) serverId c.probeNow then (true, gate)
  else if c.probe = .httpError 401 ∨ c.probe = .httpError 403 then (false, gate)
  else (true, gate.set sub (srv.fingerprint token) serverId c.probeNow)

/-- Whether a session's plex.tv token holds, where it has one that is to be checked. -/
def plexSessionLive (gate : PlexGate) (session : Session) : Bool × PlexGate :=
  match session.authMode, srv.plexServerId, session.plexAuthToken with
  | .plex, some serverId, some token => plexTokenLive srv c gate session.sub token serverId
  | _, _, _ => (true, gate)

/-- **The cookie path.** Nothing: sign the user out. -/
def reconcileCookie (s : AuthStore) (session : Session) :
    Except Error (Option Session) × AuthStore :=
  match queryStatus srv c s.db session.sub with
  | .error e => (.error e, s)
  | .ok status =>
    if status ≠ .allowed then
      (.ok none, { s with db := cascadeOnDenial c s.db session.sub (denialReason status) })
    else
      let (live, gate) := plexSessionLive srv c s.gate session
      if !live then
        (.ok none, ⟨cascadeOnDenial c s.db session.sub "plex_auth_revoked", gate⟩)
      else match queryRole srv c s.db session.sub with
        | .error e => (.error e, ⟨s.db, gate⟩)
        -- the role of the cookie is never trusted
        | .ok role => (.ok (some { session with role }), ⟨s.db, gate⟩)

/-- `UPDATE device_tokens SET last_seen_at = …, last_seen_version = COALESCE(?, …) WHERE jti = ?` -/
def touch (db : Db) (jti now : String) (appVersion : Option String) : Db :=
  { db with deviceTokens := db.deviceTokens.modify jti fun t =>
      { t with lastSeenAt := some now, lastSeenVersion := appVersion.or t.lastSeenVersion } }

/-- **The path of a device token** that has verified. Nothing: reject. -/
def reconcileBearer (db : Db) (claims : DeviceClaims) (appVersion : Option String) :
    Except Error (Option Session) × Db :=
  match queryStatus srv c db claims.sub with
  | .error e => (.error e, db)
  | .ok status =>
    if status ≠ .allowed then
      (.ok none, cascadeOnDenial c db claims.sub (denialReason status))
    else if c.seenFault then (.error .db, db)
    else
      let touched := touch db claims.jti c.sqlNow appVersion
      match db.deviceTokens.lookup claims.jti, AuthMode.parse claims.authMode with
      | some row, some authMode =>
        match queryRole srv c touched claims.sub with
        | .error e => (.error e, touched)
        | .ok role => (.ok (some ⟨claims.sub, row.deviceName, role, authMode, none⟩), touched)
      | _, _ => (.ok none, touched)

/-! ### Authenticating -/

def asciiSpace (b : UInt8) : Bool := b = 0x20 || b = 0x9 || b = 0xa || b = 0xc || b = 0xd

/-- `Bearer`, and a space. -/
def bearerScheme : List UInt8 := [0x42, 0x65, 0x61, 0x72, 0x65, 0x72, 0x20]

/-- The token of a request: none without one, or nothing that is a text. -/
def bearer (headers : HeaderMap) : Option (Option String) :=
  match headers.get "authorization" with
  | none => none
  | some value =>
    if bearerScheme.isPrefixOf (trimMatches asciiSpace value) then
      let rest := (trimMatches asciiSpace value).drop bearerScheme.length
      some ((((Utf8.decode rest).map (trimMatches whiteSpace)).filter (· ≠ [])).map String.ofList)
    else none

def appVersion (headers : HeaderMap) : Option String :=
  ((headers.get "x-app-version").bind headerText).map String.ofList

variable [LinearOrder F]

/-- **Who is calling.** A request that sends a device token is decided by it alone. -/
def authenticate (headers : HeaderMap) (s : AuthStore) :
    Except Rejection Principal × AuthStore :=
  match bearer headers with
  | some token =>
    match token, srv.deviceKeys with
    | some token, some keys =>
      match verify srv.jwe srv.iso keys token c.now c.verifyFault s.db with
      | .error _ => (.error .internal, s)
      | .ok none => (.error .invalidBearer, s)
      | .ok (some claims) =>
        match reconcileBearer srv c s.db claims (appVersion headers) with
        | (.error _, db) => (.error .internal, { s with db })
        | (.ok none, db) => (.error .invalidBearer, { s with db })
        | (.ok (some session), db) => (.ok ⟨session, some claims⟩, { s with db })
    | _, _ => (.error .invalidBearer, s)
  | none =>
    match (readCookie headers).bind fun token => sessionVerify srv.cookieJwe token c.now with
    | none => (.error .unauthenticated, s)
    | some decoded =>
      match reconcileCookie srv c s decoded with
      | (.error _, s) => (.error .internal, s)
      | (.ok none, s) => (.error .accessRevoked, s)
      | (.ok (some session), s) => (.ok ⟨session, none⟩, s)

/-- **Who is calling, if an administrator.** -/
def requireAdmin (headers : HeaderMap) (s : AuthStore) :
    Except Rejection Principal × AuthStore :=
  match authenticate srv c headers s with
  | (.error e, s) => (.error e, s)
  | (.ok p, s) => if p.session.role ≠ .admin then (.error .adminOnly, s) else (.ok p, s)

/-! ### Who is let in is a member, in the role of now -/

section accepted

variable {srv c} {db db' : Db}

omit [LinearOrder F]

theorem memberStatus_congr (h : db.members = db'.members) (adminSubs : List String)
    (sub : String) : memberStatus db adminSubs sub = memberStatus db' adminSubs sub := by
  simp only [memberStatus, h]

theorem effectiveRole_congr (h : db.members = db'.members) (adminSubs : List String)
    (sub : String) : effectiveRole db adminSubs sub = effectiveRole db' adminSubs sub := by
  simp only [effectiveRole, isMember, activeRow, h]

theorem queryStatus_eq_ok {sub : String} {status : MemberStatus}
    (h : queryStatus srv c db sub = .ok status) : memberStatus db srv.adminSubs sub = status := by
  unfold queryStatus at h
  split at h
  · exact absurd h (by simp)
  · exact Except.ok.inj h

theorem queryRole_eq_ok {sub : String} {role : Role} (h : queryRole srv c db sub = .ok role) :
    effectiveRole db srv.adminSubs sub = role := by
  unfold queryRole at h
  split at h
  · exact absurd h (by simp)
  · exact Except.ok.inj h

/-- **A subject with authority**: allowed, in the role it has in the members. -/
structure Authorized (srv : AuthServer Key F) (db : Db) (session : Session) : Prop where
  allowed : memberStatus db srv.adminSubs session.sub = .allowed
  role : session.role = effectiveRole db srv.adminSubs session.sub

theorem Authorized.congr {session : Session} (h : Authorized srv db session)
    (hmembers : db'.members = db.members) : Authorized srv db' session :=
  ⟨(memberStatus_congr hmembers _ _).trans h.allowed,
    h.role.trans (effectiveRole_congr hmembers _ _).symm⟩

/-- **What the path of a device token lets in.** -/
theorem reconcileBearer_eq_some {claims : DeviceClaims} {version : Option String}
    {session : Session} (h : reconcileBearer srv c db claims version = (.ok (some session), db')) :
    Authorized srv db session ∧ db'.members = db.members := by
  unfold reconcileBearer at h
  split at h
  · exact absurd h (by simp)
  next status hstatus =>
  split at h
  · exact absurd h (by simp)
  next hallowed =>
  split at h
  · exact absurd h (by simp)
  dsimp only at h
  split at h
  · split at h
    · exact absurd h (by simp)
    next role hrole =>
    obtain ⟨hok, rfl⟩ := Prod.mk.inj h
    obtain rfl := Option.some.inj (Except.ok.inj hok)
    -- touching the row of the token leaves the members alone
    exact ⟨⟨(queryStatus_eq_ok hstatus).trans (not_not.mp hallowed), (queryRole_eq_ok hrole).symm⟩,
      rfl⟩
  · exact absurd h (by simp)

theorem reconcileBearer_fst (claims : DeviceClaims) (version version' : Option String) :
    (reconcileBearer srv c db claims version).1 = (reconcileBearer srv c db claims version').1 := by
  have hrole : ∀ version, queryRole srv c (touch db claims.jti c.sqlNow version) claims.sub =
      queryRole srv c db claims.sub := fun _ => rfl
  simp only [reconcileBearer, hrole]
  split
  · rfl
  split
  · rfl
  split
  · rfl
  split
  · split <;> rfl
  · rfl

/-- **What the cookie path lets in.** -/
theorem reconcileCookie_eq_some {s s' : AuthStore} {decoded session : Session}
    (h : reconcileCookie srv c s decoded = (.ok (some session), s')) :
    Authorized srv s.db session ∧ s'.db = s.db := by
  unfold reconcileCookie at h
  split at h
  · exact absurd h (by simp)
  next status hstatus =>
  split at h
  · exact absurd h (by simp)
  next hallowed =>
  simp only at h
  split at h
  · exact absurd h (by simp)
  split at h
  · exact absurd h (by simp)
  next role hrole =>
  obtain ⟨hok, rfl⟩ := Prod.mk.inj h
  obtain rfl := Option.some.inj (Except.ok.inj hok)
  exact ⟨⟨(queryStatus_eq_ok hstatus).trans (not_not.mp hallowed), (queryRole_eq_ok hrole).symm⟩,
    rfl⟩

end accepted

section authenticate

variable {srv c} {headers headers' : HeaderMap} {s s' : AuthStore} {p : Principal}

/-- **Who is authenticated has authority**, before and after. -/
theorem authenticate_ok (h : authenticate srv c headers s = (.ok p, s')) :
    Authorized srv s.db p.session ∧ s'.db.members = s.db.members := by
  unfold authenticate at h
  split at h
  · split at h
    · split at h
      · exact absurd h (by simp)
      · exact absurd h (by simp)
      split at h
      · exact absurd h (by simp)
      · exact absurd h (by simp)
      next session db hreconcile =>
      obtain ⟨hok, rfl⟩ := Prod.mk.inj h
      obtain rfl := Except.ok.inj hok
      exact reconcileBearer_eq_some hreconcile
    · exact absurd h (by simp)
  · split at h
    · exact absurd h (by simp)
    split at h
    · exact absurd h (by simp)
    · exact absurd h (by simp)
    next session s'' hreconcile =>
    obtain ⟨hok, rfl⟩ := Prod.mk.inj h
    obtain rfl := Except.ok.inj hok
    obtain ⟨hauthorized, hdb⟩ := reconcileCookie_eq_some hreconcile
    exact ⟨hauthorized, by rw [hdb]⟩

/-- **A token that is accepted is not revoked.** -/
theorem not_revoked_of_authenticate {token : String} {keys : Keys Key} {claims : DeviceClaims}
    (htoken : bearer headers = some (some token)) (hkeys : srv.deviceKeys = some keys)
    (hclaims : decrypt srv.jwe keys.keys token = .ok claims)
    (h : authenticate srv c headers s = (.ok p, s')) : revoked s.db claims.jti = false := by
  simp only [authenticate, htoken, hkeys] at h
  split at h
  · exact absurd h (by simp)
  · exact absurd h (by simp)
  next claims' hverify =>
  obtain ⟨hdecrypt, -, hlive, -⟩ := not_revoked_of_verify _ _ hverify
  obtain rfl := Except.ok.inj (hclaims.symm.trans hdecrypt)
  simp only [live, Bool.and_eq_true, Bool.not_eq_true'] at hlive
  exact hlive.2

/-- **A device token decides alone**: whatever else two requests send. -/
theorem authenticate_bearer {token : Option String} (h : bearer headers = some token)
    (h' : bearer headers' = some token) :
    (authenticate srv c headers s).1 = (authenticate srv c headers' s).1 := by
  simp only [authenticate, h, h']
  split
  · split
    · rfl
    · rfl
    next claims _ =>
    have hsame : (reconcileBearer srv c s.db claims (appVersion headers)).1 =
        (reconcileBearer srv c s.db claims (appVersion headers')).1 :=
      reconcileBearer_fst claims (appVersion headers) (appVersion headers')
    rcases hr : reconcileBearer srv c s.db claims (appVersion headers) with ⟨r, db⟩
    rcases hr' : reconcileBearer srv c s.db claims (appVersion headers') with ⟨r', db'⟩
    rw [hr, hr'] at hsame
    obtain rfl : r = r' := hsame
    rcases r with _ | _ | session <;> rfl
  · rfl

def cookieless (headers : HeaderMap) : HeaderMap := headers.filter fun h => h.1 ≠ "cookie"

theorem get_cookieless {name : String} (hname : name ≠ "cookie") :
    (cookieless headers).get name = headers.get name := by
  unfold HeaderMap.get cookieless
  rw [List.find?_filter]
  congr 2
  funext h
  rcases eq_or_ne h.1 name with heq | hne
  · simp [heq, hname]
  · simp [hne]

/-- **No cookie changes what a device token does.** -/
theorem authenticate_cookieless (hcookieless : cookieless headers = cookieless headers')
    (h : (bearer headers).isSome) :
    authenticate srv c headers s = authenticate srv c headers' s := by
  have hget : ∀ name, name ≠ "cookie" → headers.get name = headers'.get name := by
    intro name hname
    rw [← get_cookieless hname, hcookieless, get_cookieless hname]
  have hbearer : bearer headers = bearer headers' := by
    simp only [bearer, hget "authorization" (by decide)]
  have hversion : appVersion headers = appVersion headers' := by
    simp only [appVersion, hget "x-app-version" (by decide)]
  obtain ⟨token, htoken⟩ := Option.isSome_iff_exists.mp h
  simp only [authenticate, htoken, ← hbearer, hversion]

end authenticate

end EmeraldExchange.Auth
