import EmeraldExchange.Contracts.Sub
import EmeraldExchange.Lib.Table

/-!
# The identity database

The tables of `server.db` that say who may come in: members, invites, device tokens and their
revocations, and the codes that link a device. A table is a map from its primary key to the rest
of the row. Times are the texts that are stored, which are compared as texts.

A transaction either commits what its body leaves or is dropped, and a failing statement drops it
(`transaction`).
-/

namespace EmeraldExchange.Auth

open Contracts

inductive Role
  | admin | user
  deriving DecidableEq

def Role.asStr : Role → String
  | .admin => "admin"
  | .user => "user"

def Role.parse : String → Option Role
  | "admin" => some .admin
  | "user" => some .user
  | _ => none

/-- The provider an identity signed in with. -/
inductive AuthMode
  | plex | «local» | apple | google | workos
  deriving DecidableEq

def AuthMode.asStr : AuthMode → String
  | .plex => "plex"
  | .local => "local"
  | .apple => "apple"
  | .google => "google"
  | .workos => "workos"

def AuthMode.parse : String → Option AuthMode
  | "plex" => some .plex
  | "local" => some .local
  | "apple" => some .apple
  | "google" => some .google
  | "workos" => some .workos
  | _ => none

/-! ### Rows -/

structure Member where
  displayName : Option String
  role : Role
  authMode : String
  invitedBy : Option String
  joinedAt : String
  revokedAt : Option String
  deriving DecidableEq

structure Invite where
  issuedBy : String
  label : Option String
  role : Role
  expiresAt : Option String
  maxUses : ℤ
  usedCount : ℤ
  createdAt : String
  revokedAt : Option String
  deriving DecidableEq

/-- A device token, by its `jti`. -/
structure DeviceToken where
  sub : String
  deviceId : String
  deviceName : String
  username : Option String
  platform : String
  serverId : String
  kid : String
  issuedAt : String
  expiresAt : String
  lastSeenAt : Option String
  lastSeenVersion : Option String
  deriving DecidableEq

/-- A revocation, by the `jti` it is of. -/
structure Revocation where
  revokedAt : String
  reason : String
  deriving DecidableEq

structure LinkCode where
  deviceId : String
  deviceName : String
  devicePlatform : String
  createdAt : ℤ
  expiresAt : ℤ
  claimedSub : Option String
  claimedUsername : Option String
  claimedRole : Option String
  claimedAuthMode : Option String
  claimedAt : Option ℤ
  consumedAt : Option ℤ
  deriving DecidableEq

/-- **The database.** -/
structure Db where
  members : Table String Member
  invites : Table String Invite
  deviceTokens : Table String DeviceToken
  deviceTokenRevocations : Table String Revocation
  deviceLinkCodes : Table String LinkCode

/-- After the migrations, before anyone has come. -/
def Db.empty : Db := ⟨∅, ∅, ∅, ∅, ∅⟩

inductive Error
  | db
  | invalidSub
  | noDeviceSecret
  deriving DecidableEq

/-- **A transaction**: the body returns a result and drops what it wrote (`.error`), or returns one
and commits (`.ok`). With `fault` one of its statements, or the commit, fails. -/
def transaction {ρ : Type} (fault : Bool) (db : Db) (body : Except ρ (ρ × Db)) :
    Except Error ρ × Db :=
  if fault then (.error .db, db)
  else match body with
    | .error r => (.ok r, db)
    | .ok (r, db') => (.ok r, db')

end EmeraldExchange.Auth
