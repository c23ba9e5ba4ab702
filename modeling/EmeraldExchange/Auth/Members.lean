import EmeraldExchange.Auth.Db

/-!
# The members allowlist

Identity is proven upstream; here it is answered whether a proven subject is let in and with which
role. A subject is allowed if it is listed in the configuration (`adminSubs`) or has a row that is
not revoked.

An administrator is revoked in a transaction that reads the actor's row again, so that of two
administrators who revoke each other one stays; whoever leaves by themselves must leave another
behind.
-/

namespace EmeraldExchange.Auth

open Contracts

inductive MemberStatus
  | allowed
  /-- Has a row whose access was revoked. -/
  | revoked
  | notMember
  deriving DecidableEq

variable (db : Db) (adminSubs : List String)

/-- **The single verdict** for an identity-verified subject. -/
def memberStatus (sub : String) : MemberStatus :=
  if !validSub sub then .notMember
  else if sub ∈ adminSubs then .allowed
  else match db.members.lookup sub with
    | some m => if m.revokedAt.isNone then .allowed else .revoked
    | none => .notMember

def activeRow (sub : String) : Option Member :=
  (db.members.lookup sub).filter fun m => m.revokedAt.isNone

def isMember (sub : String) : Option Member := if validSub sub then activeRow db sub else none

/-- **The role of a subject**: admin when it is listed or has an active row of that role. -/
def effectiveRole (sub : String) : Role :=
  if sub ∈ adminSubs then .admin
  else match isMember db sub with
    | some m => if m.role = .admin then .admin else .user
    | none => .user

def revokeInvitesOf (sub now : String) : Db :=
  { db with invites := db.invites.mapValues fun _ i =>
      if i.issuedBy = sub ∧ i.revokedAt = none then { i with revokedAt := some now } else i }

/-- `UPDATE members SET revoked_at = ? WHERE sub = ? AND revoked_at IS NULL` -/
def revokeRow (sub now : String) : Db :=
  { db with members := db.members.modify sub fun m =>
      if m.revokedAt = none then { m with revokedAt := some now } else m }

inductive SafeRevocation
  | revoked
  | notFound
  /-- The target is listed in the configuration. -/
  | owner
  | ownSub
  | actorNotAdmin
  deriving DecidableEq

/-- **Revoke a member** while the actor is still an administrator. -/
def revokeSafely (target actor now : String) (fault : Bool) : Except Error SafeRevocation × Db :=
  if !validSub target then (.ok .notFound, db)
  else if target ∈ adminSubs then (.ok .owner, db)
  else if target = actor then (.ok .ownSub, db)
  else transaction fault db <|
    if (activeRow db target).isNone then .error .notFound
    else if actor ∉ adminSubs ∧ (!validSub actor ∨ (activeRow db actor).map (·.role) ≠ some .admin)
    then .error .actorNotAdmin
    else .ok (.revoked, revokeInvitesOf (revokeRow db target now) target now)

inductive SelfRevocation
  | revoked
  | alreadyRevoked
  | lastAdmin
  deriving DecidableEq

/-- The active rows but that of a subject, with their subjects. -/
def others (sub : String) : List (String × Member) :=
  (db.members.entries.filter fun e => e.2.revokedAt.isNone && e.1 ≠ sub).map fun e => (e.1, e.2)

/-- How many administrators there would be without a subject: rows, and listed subjects that have
no row yet. -/
def remainingAdmins (sub : String) : ℕ :=
  ((others db sub).filter fun o => o.2.role = .admin || o.1 ∈ adminSubs).length +
    (adminSubs.filter fun a => !(others db sub).any fun o => o.1 = a).length

/-- **Revoke the caller's own membership** and every invite they issued. -/
def revokeSelf (sub now : String) (fault : Bool) : Except Error SelfRevocation × Db :=
  if !validSub sub then (.ok .alreadyRevoked, db)
  else if sub ∈ adminSubs then (.ok .lastAdmin, db)
  else transaction fault db <|
    match activeRow db sub with
    | none => .error .alreadyRevoked
    | some m =>
      if m.role = .admin ∧ remainingAdmins db adminSubs sub = 0 then .error .lastAdmin
      else .ok (.revoked, revokeInvitesOf (revokeRow db sub now) sub now)

/-! ### What the operations do -/

section rows

variable {db} {sub sub' now : String}

theorem lookup_revokeRow : (revokeRow db sub now).members.lookup sub' =
    if sub' = sub then (db.members.lookup sub').map fun m =>
      if m.revokedAt = none then { m with revokedAt := some now } else m
    else db.members.lookup sub' := by
  rw [revokeRow, Table.lookup_modify]
  split <;> simp

theorem activeRow_eq_some {m : Member} :
    activeRow db sub = some m ↔ db.members.lookup sub = some m ∧ m.revokedAt = none := by
  simp [activeRow, Option.filter_eq_some_iff]

theorem activeRow_revokeRow_of_ne (h : sub' ≠ sub) :
    activeRow (revokeRow db sub now) sub' = activeRow db sub' := by
  rw [activeRow, lookup_revokeRow, if_neg h, activeRow]

theorem activeRow_of_revokeRow {m : Member} (h : activeRow (revokeRow db sub now) sub' = some m) :
    activeRow db sub' = some m := by
  obtain ⟨hlookup, hactive⟩ := activeRow_eq_some.mp h
  rw [lookup_revokeRow] at hlookup
  split at hlookup
  · obtain ⟨m', hm', rfl⟩ := Option.map_eq_some_iff.mp hlookup
    split at hactive
    · exact absurd hactive (by simp)
    · next hne => exact absurd hactive hne
  · exact activeRow_eq_some.mpr ⟨hlookup, hactive⟩

end rows

/-- What a revocation of `sub` commits. -/
def revokedMember (sub now : String) : Db := revokeInvitesOf (revokeRow db sub now) sub now

theorem lookup_revokedMember {sub now hash : String} :
    (revokedMember db sub now).invites.lookup hash = (db.invites.lookup hash).map fun i =>
      if i.issuedBy = sub ∧ i.revokedAt = none then { i with revokedAt := some now } else i :=
  Table.lookup_mapValues ..

theorem activeRow_revokedMember_of_ne {sub sub' now : String} (h : sub' ≠ sub) :
    activeRow (revokedMember db sub now) sub' = activeRow db sub' :=
  activeRow_revokeRow_of_ne h

/-- **What revoking a member does**: nothing, or the revocation of an active row that is not the
actor's, by an actor who is an administrator. -/
theorem revokeSafely_cases (target actor now : String) (fault : Bool) :
    (revokeSafely db adminSubs target actor now fault).1 ≠ .ok .revoked ∧
      (revokeSafely db adminSubs target actor now fault).2 = db ∨
    revokeSafely db adminSubs target actor now fault =
        (.ok .revoked, revokedMember db target now) ∧
      target ∉ adminSubs ∧ target ≠ actor ∧ (activeRow db target).isSome ∧
      (actor ∈ adminSubs ∨ ∃ m, activeRow db actor = some m ∧ m.role = .admin) := by
  unfold revokeSafely
  split
  · exact Or.inl ⟨by simp, rfl⟩
  split
  · exact Or.inl ⟨by simp, rfl⟩
  split
  · exact Or.inl ⟨by simp, rfl⟩
  next hvalid howner hself =>
  unfold transaction
  split
  · exact Or.inl ⟨by simp, rfl⟩
  split
  · next r heq =>
    refine Or.inl ⟨?_, rfl⟩
    split at heq
    · obtain rfl := Except.error.inj heq
      simp
    · split at heq
      · obtain rfl := Except.error.inj heq
        simp
      · exact absurd heq (by simp)
  · next r db' heq =>
    split at heq
    · exact absurd heq (by simp)
    next hactive =>
    split at heq
    · exact absurd heq (by simp)
    next hactor =>
    obtain ⟨rfl, rfl⟩ := Prod.mk.inj (Except.ok.inj heq)
    refine Or.inr ⟨rfl, howner, hself, Option.isSome_iff_ne_none.mpr (by simpa using hactive), ?_⟩
    -- the actor is listed, or has an active row of an administrator
    by_cases hlisted : actor ∈ adminSubs
    · exact Or.inl hlisted
    · right
      have hrole : (activeRow db actor).map (·.role) = some .admin := by
        by_contra hno
        exact hactor ⟨hlisted, Or.inr hno⟩
      exact Option.map_eq_some_iff.mp hrole

/-- **What leaving does**: nothing, or the revocation of an active row, which an administrator's is
only if another remains. -/
theorem revokeSelf_cases (sub now : String) (fault : Bool) :
    (revokeSelf db adminSubs sub now fault).1 ≠ .ok .revoked ∧
      (revokeSelf db adminSubs sub now fault).2 = db ∨
    revokeSelf db adminSubs sub now fault = (.ok .revoked, revokedMember db sub now) ∧
      sub ∉ adminSubs ∧
      ∃ m, activeRow db sub = some m ∧
        (m.role = .admin → remainingAdmins db adminSubs sub ≠ 0) := by
  unfold revokeSelf
  split
  · exact Or.inl ⟨by simp, rfl⟩
  split
  · exact Or.inl ⟨by simp, rfl⟩
  next hvalid howner =>
  unfold transaction
  split
  · exact Or.inl ⟨by simp, rfl⟩
  cases hrow : activeRow db sub with
  | none => exact Or.inl ⟨by simp, rfl⟩
  | some m =>
    by_cases hlast : m.role = .admin ∧ remainingAdmins db adminSubs sub = 0
    · refine Or.inl ?_
      simp [hlast]
    · refine Or.inr ⟨?_, howner, m, rfl, fun hadmin hzero => hlast ⟨hadmin, hzero⟩⟩
      simp only [if_neg hlast]
      rfl

theorem exists_of_remainingAdmins {db : Db} {adminSubs : List String} {sub : String}
    (h : remainingAdmins db adminSubs sub ≠ 0) : adminSubs ≠ [] ∨
      ∃ sub' m', sub' ≠ sub ∧ activeRow db sub' = some m' ∧ m'.role = .admin := by
  by_cases hlisted : adminSubs = []
  · right
    subst hlisted
    have hne : (others db sub).filter (fun o => o.2.role = .admin || o.1 ∈ ([] : List String)) ≠
        [] := by
      rintro hnil
      exact h (by rw [remainingAdmins, hnil]; rfl)
    obtain ⟨o, ho⟩ := List.exists_mem_of_ne_nil _ hne
    obtain ⟨hmem, hadmin⟩ := List.mem_filter.mp ho
    obtain ⟨e, he, rfl⟩ := List.mem_map.mp hmem
    obtain ⟨hentry, hactive⟩ := List.mem_filter.mp he
    simp only [Bool.and_eq_true, Option.isNone_iff_eq_none, decide_eq_true_eq] at hactive
    exact ⟨e.1, e.2, hactive.2, activeRow_eq_some.mpr ⟨AList.mem_lookup_iff.mpr hentry, hactive.1⟩,
      by simpa using hadmin⟩
  · exact Or.inl hlisted

end EmeraldExchange.Auth
