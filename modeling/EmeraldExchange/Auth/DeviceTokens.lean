import EmeraldExchange.Auth.Session

/-!
# Device tokens

The bearer tokens of paired devices. Every minted `jti` has a row, and a token verifies only while
this row is live and its `jti` is not revoked. A revocation is a row of its own, which no statement
deletes or changes, so that what is revoked stays revoked whatever becomes of the token's row
(`Operation.keeps`).

The encryption of a token is third-party code, and so are the texts of times (`iso`).
-/

namespace EmeraldExchange.Auth

open Contracts

/-! ### Claims -/

structure DeviceClaims where
  aud : String
  iss : String
  sub : String
  role : String
  authMode : String
  deviceId : String
  devicePlatform : String
  serverId : String
  jti : String
  iat : ℤ
  nbf : ℤ
  exp : ℤ
  deriving DecidableEq

inductive DeviceTokenError
  /-- The header or the encryption is not well-formed, or the key is not the one. -/
  | jwe
  | badPayload
  | unsupportedAud
  | unsupportedIss
  | notYetValid
  | expired
  | unknownKid (kid : String)
  deriving DecidableEq

structure ProtectedHeader where
  alg : String
  enc : String
  kid : String
  deriving DecidableEq

/-- **What third-party code does with a token**: read its header, decrypt it under a key, encrypt
claims. -/
structure Jwe (Key : Type) where
  header : String → Option ProtectedHeader
  decryptWithKey : Key → String → Option (List UInt8)
  claims : List UInt8 → Option DeviceClaims
  encrypt : Key → String → DeviceClaims → String

def defaultKid : String := "device-v1"

def defaultTtlSecs : ℤ := 180 * 24 * 60 * 60

def nbfSkewSecs : ℤ := 30
def expSkewSecs : ℤ := 5

/-- **Keys by kid**, with one that mints. -/
structure Keys (Key : Type) where
  keys : Table String Key
  current : (keys.lookup defaultKid).isSome

def Keys.single {Key : Type} (key : Key) : Keys Key where
  keys := Table.insert defaultKid key ∅
  current := Option.isSome_iff_exists.mpr ⟨key, AList.lookup_insert _⟩

def Keys.minting {Key : Type} (keys : Keys Key) : Key :=
  (keys.keys.lookup defaultKid).get keys.current

variable {Key : Type} (jwe : Jwe Key)

/-- The claims of a token, under the key its header names. -/
def decrypt (keys : Table String Key) (token : String) : Except DeviceTokenError DeviceClaims :=
  match jwe.header token with
  | none => .error .jwe
  | some hdr =>
    if hdr.alg ≠ "dir" ∨ hdr.enc ≠ "A256GCM" then .error .jwe
    else match keys.lookup hdr.kid with
      | none => .error (.unknownKid hdr.kid)
      | some key =>
        match jwe.decryptWithKey key token with
        | none => .error .jwe
        | some plain =>
          match jwe.claims plain with
          | none => .error .badPayload
          | some claims =>
            if claims.aud ≠ "device" then .error .unsupportedAud
            else if claims.iss ≠ "eex" then .error .unsupportedIss
            else .ok claims

def enforceTimeWindow (claims : DeviceClaims) (now : ℤ) : Except DeviceTokenError Unit :=
  if now + nbfSkewSecs < claims.nbf then .error .notYetValid
  else if now - expSkewSecs > claims.exp then .error .expired
  else .ok ()

/-! ### Minting and verifying -/

structure MintInput where
  sub : String
  role : Role
  authMode : AuthMode
  deviceId : String
  devicePlatform : String
  deviceName : String
  username : Option String
  serverId : String
  deriving DecidableEq

def MintInput.claims (input : MintInput) (jti : String) (now : ℤ) : DeviceClaims where
  aud := "device"
  iss := "eex"
  sub := input.sub
  role := input.role.asStr
  authMode := input.authMode.asStr
  deviceId := input.deviceId
  devicePlatform := input.devicePlatform
  serverId := input.serverId
  jti := jti
  iat := now
  nbf := now
  exp := now + defaultTtlSecs

variable (iso : ℤ → String)

def MintInput.row (input : MintInput) (now : ℤ) : DeviceToken where
  sub := input.sub
  deviceId := input.deviceId
  deviceName := input.deviceName
  username := input.username
  platform := input.devicePlatform
  serverId := input.serverId
  kid := defaultKid
  issuedAt := iso now
  expiresAt := iso (now + defaultTtlSecs)
  lastSeenAt := none
  lastSeenVersion := none

/-- **Mint a token and insert its row**, which fails on a `jti` that is there. -/
def mint (keys : Keys Key) (input : MintInput) (jti : String) (now : ℤ) (fault : Bool) (db : Db) :
    Except Error String × Db :=
  if !validSub input.sub then (.error .invalidSub, db)
  else if fault || (db.deviceTokens.lookup jti).isSome then (.error .db, db)
  else (.ok (jwe.encrypt keys.minting defaultKid (input.claims jti now)),
    { db with deviceTokens := db.deviceTokens.insert jti (input.row iso now) })

/-- Whether a `jti` is revoked. -/
def revoked (db : Db) (jti : String) : Bool := (db.deviceTokenRevocations.lookup jti).isSome

/-- `SELECT 1 FROM device_tokens WHERE jti = ? AND expires_at > ? AND NOT EXISTS (…)` -/
def live (db : Db) (jti now : String) : Bool :=
  (db.deviceTokens.lookup jti).any (fun t => now < t.expiresAt) && !revoked db jti

/-- **Verify a token**: nothing where it is refused for any reason. -/
def verify (keys : Keys Key) (token : String) (now : ℤ) (fault : Bool) (db : Db) :
    Except Error (Option DeviceClaims) :=
  match decrypt jwe keys.keys token with
  | .error _ => .ok none
  | .ok claims =>
    if (Role.parse claims.role).isNone ∨ (AuthMode.parse claims.authMode).isNone then .ok none
    else match enforceTimeWindow claims now with
      | .error _ => .ok none
      | .ok () =>
        if fault then .error .db
        else if live db claims.jti (iso now) then .ok (some claims)
        else .ok none

/-! ### Revoking -/

/-- `INSERT OR IGNORE INTO device_token_revocations` for several. -/
def insertRevocations (db : Db) (jtis : List String) (now reason : String) : Db :=
  { db with deviceTokenRevocations :=
      jtis.foldl (fun t jti => t.insertOrIgnore jti ⟨now, reason⟩) db.deviceTokenRevocations }

/-- **Revoke one `jti`.** -/
def revoke (db : Db) (jti now reason : String) (fault : Bool) : Except Error Unit × Db :=
  if fault then (.error .db, db) else (.ok (), insertRevocations db [jti] now reason)

def tokensOf (db : Db) (sub : String) : List String :=
  (db.deviceTokens.entries.filter fun e => e.2.sub = sub).map Sigma.fst

/-- **Revoke every token of a subject**, and count them. -/
def cascadeRevokeForSub (db : Db) (sub now reason : String) (fault : Bool) :
    Except Error ℕ × Db :=
  transaction fault db <|
    .ok ((tokensOf db sub).length, insertRevocations db (tokensOf db sub) now reason)

/-- Delete rows that have expired, and count them. -/
def sweepExpired (db : Db) (now : String) (fault : Bool) : Except Error ℕ × Db :=
  if fault then (.error .db, db)
  else
    let kept := db.deviceTokens.retain fun t => !(t.expiresAt < now)
    (.ok (db.deviceTokens.size - kept.size), { db with deviceTokens := kept })

/-! ### The devices routes -/

inductive DeviceAnswer
  | notFound
  | revoked (jti : String)
  | revokedCount (n : ℕ)
  | renamed (deviceName : String)
  | invalidBody (message : String)
  deriving DecidableEq

/-- **Revoke a device** of anyone (`sub = none`) or of one subject. -/
def revokeDevice (db : Db) (sub : Option String) (jti now reason : String)
    (fault : Bool) : Except Error DeviceAnswer × Db :=
  if (db.deviceTokens.lookup jti).any fun t => sub.all (t.sub = ·) then
    let r := revoke db jti now reason fault
    (r.1.map fun _ => .revoked jti, r.2)
  else (.ok .notFound, db)

/-- `DELETE /api/devices/self/:jti` -/
def revokeOwn (db : Db) (sub jti now : String) (fault : Bool) : Except Error DeviceAnswer × Db :=
  revokeDevice db (some sub) jti now "self_revoke" fault

/-- `DELETE /api/admin/devices/:jti` -/
def revokeAny (db : Db) (jti now : String) (fault : Bool) : Except Error DeviceAnswer × Db :=
  revokeDevice db none jti now "admin_revoke" fault

/-- Log out everywhere: the devices of a subject that are not revoked. -/
def revokeAllOwn (db : Db) (sub now : String) (fault : Bool) : Except Error DeviceAnswer × Db :=
  let active := (tokensOf db sub).filter fun jti => !revoked db jti
  transaction fault db <|
    .ok (.revokedCount active.length, insertRevocations db active now "self_logout_everywhere")

/-- The trimmed new name of a device, or why there is none. -/
def newName (deviceName : Option String) : Except String String :=
  match deviceName with
  | none => .error "device_name (string) required"
  | some name =>
    if jsTrim name = "" ∨ jsLen (jsTrim name) > 128 then .error "device_name must be 1-128 chars"
    else .ok (jsTrim name)

/-- **Rename a device** of anyone (`sub = none`) or of one subject. -/
def rename (db : Db) (jti : String) (sub deviceName : Option String) (fault : Bool) :
    Except Error DeviceAnswer × Db :=
  match newName deviceName with
  | .error message => (.ok (.invalidBody message), db)
  | .ok name =>
    if fault then (.error .db, db)
    else if (db.deviceTokens.lookup jti).any fun t => sub.all (t.sub = ·) then
      (.ok (.renamed name),
        { db with
          deviceTokens := db.deviceTokens.modify jti fun t => { t with deviceName := name } })
    else (.ok .notFound, db)

theorem mint_eq_ok {keys : Keys Key} {input : MintInput} {jti : String} {now : ℤ} {fault : Bool}
    {db db' : Db} {token : String}
    (h : mint jwe iso keys input jti now fault db = (.ok token, db')) :
    db.deviceTokens.lookup jti = none ∧
      db' = { db with deviceTokens := db.deviceTokens.insert jti (input.row iso now) } := by
  unfold mint at h
  split at h
  · exact absurd h (by simp)
  split at h
  · exact absurd h (by simp)
  · next hfree =>
    simp only [Bool.or_eq_true, not_or, Option.not_isSome_iff_eq_none] at hfree
    exact ⟨hfree.2, (Prod.mk.inj h).2.symm⟩

/-! ### What is revoked stays revoked -/

section revoked

variable {db : Db} {jti jti' now reason : String}

theorem revoked_insertRevocations {jtis : List String} :
    revoked (insertRevocations db jtis now reason) jti =
      (revoked db jti || decide (jti ∈ jtis)) := by
  have h : ∀ (jtis : List String) (t : Table String Revocation),
      ((jtis.foldl (fun t jti => t.insertOrIgnore jti ⟨now, reason⟩) t).lookup jti).isSome =
        ((t.lookup jti).isSome || decide (jti ∈ jtis)) := by
    intro jtis
    induction jtis with
    | nil => simp
    | cons j jtis ih =>
      intro t
      rw [List.foldl_cons, ih, Table.lookup_insertOrIgnore]
      rcases eq_or_ne jti j with rfl | hne
      · simp
      · simp [hne]
  exact h jtis _

/-- **Nothing that verifies is revoked.** -/
theorem not_revoked_of_verify {keys : Keys Key} {token : String} {now : ℤ} {fault : Bool}
    {claims : DeviceClaims} (h : verify jwe iso keys token now fault db = .ok (some claims)) :
    decrypt jwe keys.keys token = .ok claims ∧ fault = false ∧ live db claims.jti (iso now) = true ∧
      (AuthMode.parse claims.authMode).isSome := by
  unfold verify at h
  split at h
  · exact absurd h (by simp)
  next claims' hdecrypt =>
  split at h
  · exact absurd h (by simp)
  next hparse =>
  split at h
  · exact absurd h (by simp)
  split at h
  · exact absurd h (by simp)
  next hfault =>
  split at h
  · next hlive =>
    obtain rfl := Option.some.inj (Except.ok.inj h)
    simp only [not_or, Option.isNone_iff_eq_none] at hparse
    exact ⟨hdecrypt, by simpa using hfault, hlive, Option.isSome_iff_ne_none.mpr hparse.2⟩
  · exact absurd h (by simp)

end revoked

end EmeraldExchange.Auth
