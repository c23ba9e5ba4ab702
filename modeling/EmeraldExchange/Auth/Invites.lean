import EmeraldExchange.Auth.Members

/-!
# Invites

An administrator issues a code; whoever brings it with a proven identity becomes a member. Only the
hash of a code is stored. Redeeming runs in one transaction, which writes the member and counts the
use, or does neither.

The hash and the codes are parameters: SHA-256 is third-party code, and codes are random.
-/

namespace EmeraldExchange.Auth

open Contracts

structure IssueOptions where
  label : Option String
  /-- When the invite expires, computed from the days that were asked for. -/
  expiresAt : Option String
  /-- Clamped to at least 1. -/
  maxUses : ℤ
  /-- The role the redeeming member receives. -/
  role : Role
  deriving DecidableEq

def Invite.issued (adminSub now : String) (opts : IssueOptions) : Invite where
  issuedBy := adminSub
  label := opts.label
  role := opts.role
  expiresAt := opts.expiresAt
  maxUses := max opts.maxUses 1
  usedCount := 0
  createdAt := now
  revokedAt := none

/-- `INSERT INTO invites`, which fails on a hash that is there. -/
def insertInvite (db : Db) (hash : String) (row : Invite) (fault : Bool) : Except Error Unit × Db :=
  if fault || (db.invites.lookup hash).isSome then (.error .db, db)
  else (.ok (), { db with invites := db.invites.insert hash row })

/-- **Issue an invite.** -/
def issue (db : Db) (hash adminSub now : String) (opts : IssueOptions) (fault : Bool) :
    Except Error Unit × Db :=
  if !validSub adminSub then (.error .invalidSub, db)
  else insertInvite db hash (.issued adminSub now opts) fault

inductive Redeem
  /-- A new member, or a revoked one re-granted. One use burned. -/
  | created
  /-- The subject is already an active member; no use burned. -/
  | alreadyMember
  | invalid
  | expired
  | exhausted
  /-- The invite, or the member who issued it, is revoked. -/
  | revoked
  deriving DecidableEq

def memberRevoked (db : Db) (sub : String) : Bool :=
  (db.members.lookup sub).any fun m => m.revokedAt.isSome

/-- The row of an admitted member: a new one, or the old one overwritten. -/
def Member.admitted (now : String) (displayName : Option String) (authMode : AuthMode)
    (i : Invite) : Member where
  displayName := displayName
  role := i.role
  authMode := authMode.asStr
  invitedBy := some i.issuedBy
  joinedAt := now
  revokedAt := none

/-- `UPDATE invites SET used_count = used_count + 1 WHERE code_hash = ? AND used_count < max_uses`:
whether a row was changed, and the table. -/
def spend (invites : Table String Invite) (hash : String) : Bool × Table String Invite :=
  match invites.lookup hash with
  | some i =>
    if i.usedCount < i.maxUses then
      (true, invites.modify hash fun i => { i with usedCount := i.usedCount + 1 })
    else (false, invites)
  | none => (false, invites)

/-- **Redeem the code of a hash** for an identity-verified subject. -/
def redeem (db : Db) (hash sub now : String) (displayName : Option String) (authMode : AuthMode)
    (fault : Bool) : Except Error Redeem × Db :=
  if !validSub sub then (.ok .invalid, db)
  else transaction fault db <|
    match db.invites.lookup hash with
    | none => .error .invalid
    | some i =>
      if i.revokedAt.isSome then .error .revoked
      -- a revoked member's invites die with them; a listed subject may have no row
      else if memberRevoked db i.issuedBy then .error .revoked
      else if i.expiresAt.any (· < now) then .error .expired
      else if (activeRow db sub).isSome then .error .alreadyMember
      else if i.usedCount ≥ i.maxUses then .error .exhausted
      else
        let db' :=
          { db with members := db.members.insert sub (.admitted now displayName authMode i) }
        let (spent, invites) := spend db'.invites hash
        -- lost the last use: the member write is rolled back
        if !spent then .error .exhausted
        else .ok (.created, { db' with invites })

/-- Whether a prefix of a hash may be looked for. -/
def hashPrefix (p : String) : Bool :=
  p.toList ≠ [] && p.toList.length ≤ 64 &&
    p.toList.all fun c => c.isDigit || ('a' ≤ c && c ≤ 'f')

/-- `SELECT … WHERE code_hash LIKE ? || '%'`: the one unrevoked invite whose hash starts so. -/
def revocable (db : Db) (p : String) : Option String :=
  if !hashPrefix p then none
  else match db.invites.entries.filter fun e => p.toList.isPrefixOf e.1.toList with
    | [e] => if e.2.revokedAt.isNone then some e.1 else none
    | _ => none

/-- `UPDATE invites SET revoked_at = ? WHERE code_hash = ? AND revoked_at IS NULL` -/
def revokeInvite (db : Db) (hash now : String) : Db :=
  { db with invites := db.invites.modify hash fun i =>
      if i.revokedAt = none then { i with revokedAt := some now } else i }

/-! ### What the operations do -/

variable {db : Db}

/-- **What an insert does**: nothing, or a row where there was none. -/
theorem insertInvite_cases (db : Db) (hash : String) (row : Invite) (fault : Bool) :
    insertInvite db hash row fault = (.error .db, db) ∨
      insertInvite db hash row fault =
        (.ok (), { db with invites := db.invites.insert hash row }) ∧
        db.invites.lookup hash = none := by
  unfold insertInvite
  split
  · exact Or.inl rfl
  · next h =>
    simp only [Bool.or_eq_true, not_or, Option.not_isSome_iff_eq_none] at h
    exact Or.inr ⟨rfl, h.2⟩

theorem lookup_revokeInvite {hash hash' now : String} :
    (revokeInvite db hash now).invites.lookup hash' = (db.invites.lookup hash').map fun i =>
      if hash' = hash ∧ i.revokedAt = none then { i with revokedAt := some now } else i := by
  rw [revokeInvite, Table.lookup_modify]
  by_cases heq : hash' = hash <;> simp [heq]

def redeemed (db : Db) (hash sub now : String) (displayName : Option String)
    (authMode : AuthMode) (i : Invite) : Db :=
  { db with
    members := db.members.insert sub (.admitted now displayName authMode i)
    invites := db.invites.modify hash fun i => { i with usedCount := i.usedCount + 1 } }

/-- What it takes for a code to be redeemed. -/
structure Redeemable (db : Db) (hash sub now : String) (i : Invite) : Prop where
  valid : validSub sub = true
  invite : db.invites.lookup hash = some i
  unrevoked : i.revokedAt = none
  issuer : memberRevoked db i.issuedBy = false
  unexpired : i.expiresAt.any (· < now) = false
  inactive : activeRow db sub = none
  unused : i.usedCount < i.maxUses

/-- **What redeeming does**: nothing, or one member and one use of a redeemable invite. -/
theorem redeem_cases (db : Db) (hash sub now : String) (displayName : Option String)
    (authMode : AuthMode) (fault : Bool) :
    (redeem db hash sub now displayName authMode fault).1 ≠ .ok .created ∧
      (redeem db hash sub now displayName authMode fault).2 = db ∨
    ∃ i, Redeemable db hash sub now i ∧ redeem db hash sub now displayName authMode fault =
      (.ok .created, redeemed db hash sub now displayName authMode i) := by
  unfold redeem
  split
  · exact Or.inl ⟨by simp, rfl⟩
  next hvalid =>
  unfold transaction
  split
  · exact Or.inl ⟨by simp, rfl⟩
  cases hinvite : db.invites.lookup hash with
  | none => exact Or.inl ⟨by simp, rfl⟩
  | some i =>
    dsimp only
    by_cases hrevoked : i.revokedAt.isSome
    · rw [if_pos hrevoked]
      exact Or.inl ⟨by simp, rfl⟩
    rw [if_neg hrevoked]
    by_cases hissuer : memberRevoked db i.issuedBy
    · rw [if_pos hissuer]
      exact Or.inl ⟨by simp, rfl⟩
    rw [if_neg hissuer]
    by_cases hexpired : i.expiresAt.any (· < now)
    · rw [if_pos hexpired]
      exact Or.inl ⟨by simp, rfl⟩
    rw [if_neg hexpired]
    by_cases hactive : (activeRow db sub).isSome
    · rw [if_pos hactive]
      exact Or.inl ⟨by simp, rfl⟩
    rw [if_neg hactive]
    by_cases hused : i.usedCount ≥ i.maxUses
    · rw [if_pos hused]
      exact Or.inl ⟨by simp, rfl⟩
    · -- the guarded count finds the row as it was read, under the write lock
      have hlt : i.usedCount < i.maxUses := by omega
      rw [if_neg hused]
      refine Or.inr ⟨i, ⟨by simpa using hvalid, hinvite, by simpa using hrevoked,
        by simpa using hissuer, by simpa using hexpired, by simpa using hactive, hlt⟩, ?_⟩
      simp [spend, hinvite, hlt, redeemed]

theorem activeRow_redeemed {hash sub now sub' : String} {displayName : Option String}
    {authMode : AuthMode} {i : Invite} {m : Member} (hi : Redeemable db hash sub now i)
    (h : activeRow db sub' = some m) :
    activeRow (redeemed db hash sub now displayName authMode i) sub' = some m := by
  have hne : sub' ≠ sub := by
    rintro rfl
    exact absurd hi.inactive (by simp [h])
  obtain ⟨hlookup, hactive⟩ := activeRow_eq_some.mp h
  exact activeRow_eq_some.mpr ⟨(AList.lookup_insert_ne hne).trans hlookup, hactive⟩

theorem activeRow_redeem {hash sub now sub' : String} {displayName : Option String}
    {authMode : AuthMode} {fault : Bool} {m : Member} (h : activeRow db sub' = some m) :
    activeRow (redeem db hash sub now displayName authMode fault).2 sub' = some m := by
  rcases redeem_cases db hash sub now displayName authMode fault with ⟨-, hdb⟩ | ⟨i, hi, heq⟩
  · rw [hdb]
    exact h
  · rw [heq]
    exact activeRow_redeemed hi h

end EmeraldExchange.Auth
