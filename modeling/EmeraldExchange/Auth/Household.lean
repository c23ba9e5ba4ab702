import EmeraldExchange.Auth.Invites
import EmeraldExchange.Lib.Runs

/-!
# The household over time

The operations on members and invites, in any order: transactions are serialised by the database,
while an issue and a revocation of an invite are statements of their own, so that others may come
between a request and its last statement. What happened is kept in a log, which only the statements
of this module read.

* `Household.invite_accounting` – the uses of an invite are the members it
  admitted, and no more than it allows.
* `Household.authority_of_runs` – there is always an administrator.

What becomes of a revoked member's invites is the subject of `DeadInvites`.
-/

namespace EmeraldExchange.Auth

open Contracts

/-- What the configuration says: subjects that parse, else the server does not start. -/
structure Config where
  adminSubs : List String
  valid : ∀ s ∈ adminSubs, validSub s = true

inductive Event
  /-- An issue call by a subject began: the number of the call and the hash of its code. -/
  | issued (call : ℕ) (hash issuer : String)
  /-- The row of a call was inserted. -/
  | inserted (call : ℕ)
  | revoked (sub : String)
  /-- A code admitted a subject. -/
  | redeemed (code sub : String)
  deriving DecidableEq

structure Issuing where
  call : ℕ
  hash : String
  adminSub : String
  now : String
  opts : IssueOptions
  deriving DecidableEq

def Issuing.row (p : Issuing) : Invite := .issued p.adminSub p.now p.opts

/-- **The household**: the database, the requests under way, and what happened, the latest first. -/
structure Household where
  db : Db
  /-- The subjects that were let into the admin routes. -/
  admitted : List String
  issuing : List Issuing
  /-- Hashes of invites whose revocation is under way. -/
  revoking : List String
  calls : ℕ
  log : List Event

inductive Act
  | letIn (sub : String)
  | issue (adminSub code now : String) (opts : IssueOptions)
  | insertIssued (n : ℕ) (fault : Bool)
  | redeem (code sub now : String) (displayName : Option String) (authMode : AuthMode)
      (fault : Bool)
  | selectInvite (hashPrefix : String)
  | revokeInvite (n : ℕ) (now : String)
  | revokeSafely (target actor now : String) (fault : Bool)
  | revokeSelf (sub now : String) (fault : Bool)

namespace Household

variable (hashCode : String → String) (config : Config)

/-- A household whose requests are all over. -/
def idle (db : Db) : Household := ⟨db, [], [], [], 0, []⟩

/-- Before the first invite, with whatever members there are. -/
def start (db : Db) : Household := idle { db with invites := ∅ }

/-- **One step.** -/
def step (s : Household) : Act → Option Household
  | .letIn sub => some { s with admitted := sub :: s.admitted }
  | .issue adminSub code now opts =>
    if !validSub adminSub then some s
    else some { s with
      issuing := s.issuing ++ [⟨s.calls, hashCode code, adminSub, now, opts⟩]
      calls := s.calls + 1
      log := .issued s.calls (hashCode code) adminSub :: s.log }
  | .insertIssued n fault => s.issuing[n]?.map fun p =>
      let r := insertInvite s.db p.hash p.row fault
      { s with
        db := r.2
        issuing := s.issuing.eraseIdx n
        log := if r.1 = .ok () then .inserted p.call :: s.log else s.log }
  | .redeem code sub now displayName authMode fault =>
    let r := Auth.redeem s.db (hashCode code) sub now displayName authMode fault
    some { s with
      db := r.2
      log := if r.1 = .ok .created then .redeemed code sub :: s.log else s.log }
  | .selectInvite hashPrefix =>
    some { s with revoking := s.revoking ++ (revocable s.db hashPrefix).toList }
  | .revokeInvite n now => s.revoking[n]?.map fun hash =>
      { s with db := Auth.revokeInvite s.db hash now, revoking := s.revoking.eraseIdx n }
  | .revokeSafely target actor now fault =>
    let r := Auth.revokeSafely s.db config.adminSubs target actor now fault
    some { s with
      db := r.2
      log := if r.1 = .ok .revoked then .revoked target :: s.log else s.log }
  | .revokeSelf sub now fault =>
    let r := Auth.revokeSelf s.db config.adminSubs sub now fault
    some { s with
      db := r.2
      log := if r.1 = .ok .revoked then .revoked sub :: s.log else s.log }

/-- **What a step writes to the database and to the log**, whichever request it is of. -/
inductive Writes (s t : Household) : Prop
  | nothing (hdb : t.db = s.db) (hlog : t.log = s.log)
  | issued (p : Issuing) (hcall : p.call = s.calls) (hdb : t.db = s.db)
      (hlog : t.log = .issued p.call p.hash p.adminSub :: s.log)
  | inserted (p : Issuing) (hnone : s.db.invites.lookup p.hash = none) (hmem : p ∈ s.issuing)
      (hdb : t.db = { s.db with invites := s.db.invites.insert p.hash p.row })
      (hlog : t.log = .inserted p.call :: s.log)
  | redeemed (code sub now : String) (displayName : Option String) (authMode : AuthMode)
      (i : Invite) (hi : Redeemable s.db (hashCode code) sub now i)
      (hdb : t.db = Auth.redeemed s.db (hashCode code) sub now displayName authMode i)
      (hlog : t.log = .redeemed code sub :: s.log)
  | revokedInvite (hash now : String) (hdb : t.db = Auth.revokeInvite s.db hash now)
      (hlog : t.log = s.log)
  | revoked (sub now : String) (howner : sub ∉ config.adminSubs)
      (hremains : ∀ m, activeRow s.db sub = some m → m.role = .admin → config.adminSubs ≠ [] ∨
        ∃ sub' m', sub' ≠ sub ∧ activeRow s.db sub' = some m' ∧ m'.role = .admin)
      (hdb : t.db = revokedMember s.db sub now) (hlog : t.log = .revoked sub :: s.log)

variable {hashCode config} {s t : Household}

/-- **Every step writes one of these.** -/
theorem writes_of_step {a : Act} (h : s.step hashCode config a = some t) :
    Writes hashCode config s t := by
  rcases a with sub | ⟨adminSub, code, now, opts⟩ | ⟨n, fault⟩ |
    ⟨code, sub, now, displayName, authMode, fault⟩ | p | ⟨n, now⟩ | ⟨target, actor, now, fault⟩ |
    ⟨sub, now, fault⟩
  · obtain rfl := Option.some.inj h
    exact .nothing rfl rfl
  · simp only [step] at h
    split at h
    · obtain rfl := Option.some.inj h
      exact .nothing rfl rfl
    · obtain rfl := Option.some.inj h
      exact .issued ⟨s.calls, hashCode code, adminSub, now, opts⟩ rfl rfl rfl
  · obtain ⟨p, hp, rfl⟩ := Option.map_eq_some_iff.mp h
    rcases insertInvite_cases s.db p.hash p.row fault with heq | ⟨heq, hnone⟩
    · exact .nothing (by simp [heq]) (by simp [heq])
    · exact .inserted p hnone (List.mem_of_getElem? hp) (by simp [heq]) (by simp [heq])
  · obtain rfl := Option.some.inj h
    rcases redeem_cases s.db (hashCode code) sub now displayName authMode fault with
      ⟨hno, hdb⟩ | ⟨i, hi, heq⟩
    · exact .nothing hdb (if_neg hno)
    · exact .redeemed code sub now displayName authMode i hi (by simp [heq]) (by simp [heq])
  · obtain rfl := Option.some.inj h
    exact .nothing rfl rfl
  · obtain ⟨hash, -, rfl⟩ := Option.map_eq_some_iff.mp h
    exact .revokedInvite hash now rfl rfl
  · obtain rfl := Option.some.inj h
    rcases revokeSafely_cases s.db config.adminSubs target actor now fault with
      ⟨hno, hdb⟩ | ⟨heq, howner, hself, -, hactor⟩
    · exact .nothing hdb (if_neg hno)
    · refine .revoked target now howner (fun _ _ _ => ?_) (by simp [heq]) (by simp [heq])
      -- the actor stays
      rcases hactor with hlisted | ⟨m, hm, hrole⟩
      · exact Or.inl (List.ne_nil_of_mem hlisted)
      · exact Or.inr ⟨actor, m, fun h => hself h.symm, hm, hrole⟩
  · obtain rfl := Option.some.inj h
    rcases revokeSelf_cases s.db config.adminSubs sub now fault with
      ⟨hno, hdb⟩ | ⟨heq, howner, m, hm, hlast⟩
    · exact .nothing hdb (if_neg hno)
    · refine .revoked sub now howner (fun m' hm' hadmin => ?_) (by simp [heq]) (by simp [heq])
      obtain rfl := Option.some.inj (hm.symm.trans hm')
      exact exists_of_remainingAdmins (hlast hadmin)

/-! ### Invite accounting -/

def admissions (hashCode : String → String) (hash : String) (log : List Event) : ℕ :=
  log.countP fun
    | .redeemed code _ => hashCode code = hash
    | _ => false

def admissionsOf (code : String) (log : List Event) : ℕ :=
  log.countP fun
    | .redeemed code' _ => code' = code
    | _ => false

/-- **The uses of an invite are its admissions**, and no more than it allows; a hash without an
invite admitted nobody. -/
structure Accounted (hashCode : String → String) (s : Household) : Prop where
  some : ∀ hash i, s.db.invites.lookup hash = some i →
    i.usedCount = admissions hashCode hash s.log ∧ i.usedCount ≤ i.maxUses
  none : ∀ hash, s.db.invites.lookup hash = none → admissions hashCode hash s.log = 0

theorem Accounted.of_map (h : Accounted hashCode s) {f : String → Invite → Invite}
    (hlookup : ∀ hash, t.db.invites.lookup hash = (s.db.invites.lookup hash).map (f hash))
    (hf : ∀ hash i, (f hash i).usedCount = i.usedCount ∧ (f hash i).maxUses = i.maxUses)
    (hlog : ∀ hash, admissions hashCode hash t.log = admissions hashCode hash s.log) :
    Accounted hashCode t := by
  constructor
  · intro hash i hi
    rw [hlookup] at hi
    obtain ⟨i', hi', rfl⟩ := Option.map_eq_some_iff.mp hi
    rw [(hf hash i').1, (hf hash i').2, hlog]
    exact h.some hash i' hi'
  · intro hash hnone
    rw [hlookup, Option.map_eq_none_iff] at hnone
    rw [hlog]
    exact h.none hash hnone

theorem accounted_start (db : Db) : Accounted hashCode (start db) :=
  ⟨fun _ _ h => absurd h (by simp [start, idle]), fun _ _ => rfl⟩

/-- **Every step keeps the accounts.** -/
theorem Accounted.step (h : Accounted hashCode s) (hwrites : Writes hashCode config s t) :
    Accounted hashCode t := by
  rcases hwrites with ⟨hdb, hlog⟩ | ⟨p, -, hdb, hlog⟩ | ⟨p, hnone, -, hdb, hlog⟩ |
    ⟨code, sub, now, displayName, authMode, i, hi, hdb, hlog⟩ | ⟨hash, now, hdb, hlog⟩ |
    ⟨sub, now, -, -, hdb, hlog⟩
  · exact h.of_map (f := fun _ i => i) (by simp [hdb]) (by simp) (by simp [hlog])
  · exact h.of_map (f := fun _ i => i) (by simp [hdb]) (by simp) (by simp [hlog, admissions])
  · -- a new invite is unused, and its hash admitted nobody
    have hzero : ∀ hash, admissions hashCode hash t.log = admissions hashCode hash s.log := by
      simp [hlog, admissions]
    constructor
    · intro hash i hi
      rw [hzero]
      rw [hdb] at hi
      rcases Table.lookup_insert_cases hi with ⟨rfl, rfl⟩ | ⟨-, hi⟩
      · rw [h.none _ hnone]
        refine ⟨rfl, ?_⟩
        show (0 : ℤ) ≤ max _ 1
        omega
      · exact h.some hash i hi
    · intro hash hi
      rw [hzero]
      rw [hdb, AList.lookup_insert_eq_none] at hi
      exact h.none hash hi.2
  · -- one more use, and one more admission
    have hcount : ∀ hash, admissions hashCode hash t.log =
        admissions hashCode hash s.log + if hashCode code = hash then 1 else 0 := by
      simp [hlog, admissions, List.countP_cons]
    have hlookup : ∀ hash, t.db.invites.lookup hash = (s.db.invites.lookup hash).map fun i =>
        if hash = hashCode code then { i with usedCount := i.usedCount + 1 } else i := by
      intro hash
      rw [hdb]
      exact Table.lookup_modify ..
    constructor
    · intro hash i' hi'
      rw [hlookup] at hi'
      obtain ⟨i₀, hi₀, rfl⟩ := Option.map_eq_some_iff.mp hi'
      obtain ⟨hused, hle⟩ := h.some hash i₀ hi₀
      rw [hcount]
      rcases eq_or_ne hash (hashCode code) with rfl | hne
      · obtain rfl := Option.some.inj (hi₀.symm.trans hi.invite)
        have hlt := hi.unused
        simp only [if_true]
        push_cast
        omega
      · simp only [hne, hne.symm, if_false, hused, Nat.add_zero]
        exact ⟨trivial, hused ▸ hle⟩
    · intro hash hnone
      rw [hlookup, Option.map_eq_none_iff] at hnone
      have hne : hashCode code ≠ hash := by
        rintro rfl
        exact absurd hi.invite (by simp [hnone])
      rw [hcount, if_neg hne, h.none hash hnone]
  · refine h.of_map (fun hash' => hdb ▸ lookup_revokeInvite) (fun hash' i => ?_) (by simp [hlog])
    split <;> exact ⟨rfl, rfl⟩
  · refine h.of_map (fun hash => hdb ▸ lookup_revokedMember s.db) (fun hash i => ?_)
      (by simp [hlog, admissions])
    split <;> exact ⟨rfl, rfl⟩

theorem admissionsOf_eq {code : String} {log : List Event}
    (h : ∀ code' sub, .redeemed code' sub ∈ log → hashCode code' = hashCode code → code' = code) :
    admissionsOf code log = admissions hashCode (hashCode code) log := by
  refine List.countP_congr fun e he => ?_
  rcases e with _ | _ | _ | ⟨code', sub⟩
  · rfl
  · rfl
  · rfl
  · simp only [decide_eq_true_eq]
    exact ⟨fun heq => by rw [heq], h code' sub he⟩

/-- **Invite accounting.** After any requests in any order: every invite has been used at most as
often as it allows, and as often as its hash – and, where no other redeemed code has this hash, its
code – admitted someone; a redemption that does not create a member leaves the database as it was;
and none changes the row of an active member. -/
theorem invite_accounting (db : Db) (h : Runs (step hashCode config) anyStep (start db) s) :
    (∀ hash i, s.db.invites.lookup hash = some i →
      i.usedCount ≤ i.maxUses ∧ i.usedCount = admissions hashCode hash s.log ∧
      ∀ code, hashCode code = hash →
        (∀ code' sub, .redeemed code' sub ∈ s.log → hashCode code' = hash → code' = code) →
        i.usedCount = admissionsOf code s.log) ∧
    ∀ code sub now displayName authMode fault,
      ((Auth.redeem s.db (hashCode code) sub now displayName authMode fault).1 ≠ .ok .created →
        (Auth.redeem s.db (hashCode code) sub now displayName authMode fault).2 = s.db) ∧
      ∀ sub' m, activeRow s.db sub' = some m →
        activeRow (Auth.redeem s.db (hashCode code) sub now displayName authMode fault).2 sub' =
          some m := by
  have haccounted : Accounted hashCode s := h.invariant (accounted_start db)
    fun _ _ _ hv _ hstep => hv.step (writes_of_step hstep)
  constructor
  · intro hash i hi
    obtain ⟨hused, hle⟩ := haccounted.some hash i hi
    refine ⟨hle, hused, ?_⟩
    rintro code rfl hcodes
    rw [admissionsOf_eq hcodes]
    exact hused
  · intro code sub now displayName authMode fault
    refine ⟨fun hno => ?_, fun sub' m hm => activeRow_redeem hm⟩
    rcases redeem_cases s.db (hashCode code) sub now displayName authMode fault with
      ⟨-, hdb⟩ | ⟨i, -, heq⟩
    · exact hdb
    · exact absurd (by rw [heq]) hno

def owned : Config := ⟨["plex:1"], by decide⟩

def firstCode : String := "AAECAwQFBgcICQoLDA0ODw"

def secondCode : String := "EBESExQVFhcYGRobHB0eHw"

def digests (code : String) : String :=
  if code = firstCode then "5d2611d5a4dd2b40b277dfdb5ecf5b49819150d7d5c62f4eef960cb0c24db20c"
  else "1af3787867727da9403759b9fe483b6ba275698f43098082e3495985f49a3428"

def forTwo (role : Role) : IssueOptions := ⟨none, none, 2, role⟩

/-- Of four redemptions of an invite for two, one is by who is a member already, and one comes too
late. -/
theorem invite_accounting_forTwo : ∃ s, Runs (step digests owned) anyStep (start .empty) s ∧
    ∃ i, s.db.invites.lookup (digests firstCode) = some i ∧ i.usedCount = 2 ∧
      i.usedCount ≤ i.maxUses ∧ i.usedCount = admissionsOf firstCode s.log := by
  have h : ∃ s, exec (step digests owned) (start .empty)
      [.issue "plex:1" firstCode "2026-01-01T00:00:00.000Z" (forTwo .user), .insertIssued 0 false,
        .redeem firstCode "plex:2" "2026-01-02T00:00:00.000Z" none .plex false,
        .redeem firstCode "plex:2" "2026-01-02T00:01:00.000Z" none .plex false,
        .redeem firstCode "plex:3" "2026-01-03T00:00:00.000Z" none .plex false,
        .redeem firstCode "plex:4" "2026-01-04T00:00:00.000Z" none .plex false] = some s ∧
      s.log = [.redeemed firstCode "plex:3", .redeemed firstCode "plex:2", .inserted 0,
        .issued 0 (digests firstCode) "plex:1"] ∧
      (s.db.invites.lookup (digests firstCode)).map (·.usedCount) = some 2 := ⟨_, rfl, rfl, rfl⟩
  obtain ⟨s, hs, hlog, hused⟩ := h
  obtain ⟨i, hi, htwo⟩ := Option.map_eq_some_iff.mp hused
  obtain ⟨hle, -, hcode⟩ := (invite_accounting .empty (runs_of_exec hs)).1 _ i hi
  refine ⟨s, runs_of_exec hs, i, hi, htwo, hle, hcode _ rfl ?_⟩
  rw [hlog]
  rintro code sub hmem -
  simp only [List.mem_cons, Event.redeemed.injEq, reduceCtorEq, List.not_mem_nil, or_false] at hmem
  rcases hmem with ⟨rfl, -⟩ | ⟨rfl, -⟩ <;> rfl

/-! ### There is always an administrator -/

/-- **An authority**: a listed subject, or an active row of an administrator. -/
def Authority (config : Config) (db : Db) : Prop :=
  (∃ sub ∈ config.adminSubs, validSub sub = true) ∨
    ∃ sub m, activeRow db sub = some m ∧ m.role = .admin

/-- Rows are of subjects that parse, as redeeming writes them. -/
def RowsValid (db : Db) : Prop :=
  ∀ sub m, db.members.lookup sub = some m → validSub sub = true

/-- **Every step leaves an authority.** -/
theorem Authority.step (h : Authority config s.db) (hwrites : Writes hashCode config s t) :
    Authority config t.db := by
  rcases h with hlisted | ⟨sub', m', hactive, hrole⟩
  · exact Or.inl hlisted
  rcases hwrites with ⟨hdb, -⟩ | ⟨p, -, hdb, -⟩ | ⟨p, -, -, hdb, -⟩ |
    ⟨code, sub, now, displayName, authMode, i, hi, hdb, -⟩ | ⟨hash, now, hdb, -⟩ |
    ⟨sub, now, -, hremains, hdb, -⟩
  · exact Or.inr ⟨sub', m', hdb ▸ hactive, hrole⟩
  · exact Or.inr ⟨sub', m', hdb ▸ hactive, hrole⟩
  · exact Or.inr ⟨sub', m', hdb ▸ hactive, hrole⟩
  · exact Or.inr ⟨sub', m', hdb ▸ activeRow_redeemed hi hactive, hrole⟩
  · exact Or.inr ⟨sub', m', hdb ▸ hactive, hrole⟩
  · rw [hdb]
    rcases eq_or_ne sub' sub with rfl | hne
    · -- the administrator who goes leaves another
      rcases hremains m' hactive hrole with hlisted | ⟨other, m, hne, hother, hadmin⟩
      · obtain ⟨a, ha⟩ := List.exists_mem_of_ne_nil _ hlisted
        exact Or.inl ⟨a, ha, config.valid a ha⟩
      · exact Or.inr ⟨other, m, (activeRow_revokedMember_of_ne s.db hne).trans hother, hadmin⟩
    · exact Or.inr ⟨sub', m', (activeRow_revokedMember_of_ne s.db hne).trans hactive, hrole⟩

theorem RowsValid.step (h : RowsValid s.db) (hwrites : Writes hashCode config s t) :
    RowsValid t.db := by
  rcases hwrites with ⟨hdb, -⟩ | ⟨p, -, hdb, -⟩ | ⟨p, -, -, hdb, -⟩ |
    ⟨code, sub, now, displayName, authMode, i, hi, hdb, -⟩ | ⟨hash, now, hdb, -⟩ |
    ⟨sub, now, -, -, hdb, -⟩
  · exact hdb ▸ h
  · exact hdb ▸ h
  · exact hdb ▸ h
  · intro sub' m hm
    rw [hdb] at hm
    rcases Table.lookup_insert_cases hm with ⟨rfl, -⟩ | ⟨-, hm⟩
    · exact hi.valid
    · exact h sub' m hm
  · exact hdb ▸ h
  · intro sub' m hm
    rw [hdb] at hm
    replace hm : (revokeRow s.db sub now).members.lookup sub' = some m := hm
    have hrow := lookup_revokeRow.symm.trans hm
    split at hrow
    · obtain ⟨m', hm', -⟩ := Option.map_eq_some_iff.mp hrow
      exact h sub' m' hm'
    · exact h sub' m hrow

theorem activeRow_of_listed {sub : String} (hwrites : Writes hashCode config s t)
    (hlisted : sub ∈ config.adminSubs) {m : Member} (h : activeRow s.db sub = some m) :
    activeRow t.db sub = some m := by
  rcases hwrites with ⟨hdb, -⟩ | ⟨p, -, hdb, -⟩ | ⟨p, -, -, hdb, -⟩ |
    ⟨code, sub', now, displayName, authMode, i, hi, hdb, -⟩ | ⟨hash, now, hdb, -⟩ |
    ⟨sub', now, howner, -, hdb, -⟩
  · exact hdb ▸ h
  · exact hdb ▸ h
  · exact hdb ▸ h
  · exact hdb ▸ activeRow_redeemed hi h
  · exact hdb ▸ h
  · have hne : sub ≠ sub' := by
      rintro rfl
      exact howner hlisted
    rw [hdb, activeRow_revokedMember_of_ne s.db hne]
    exact h

theorem Authority.exists_admin {db : Db} (h : Authority config db) (hvalid : RowsValid db) :
    ∃ sub, memberStatus db config.adminSubs sub = .allowed ∧
      effectiveRole db config.adminSubs sub = .admin := by
  rcases h with ⟨sub, hlisted, hsub⟩ | ⟨sub, m, hactive, hrole⟩
  · exact ⟨sub, by simp [memberStatus, hsub, hlisted], by simp [effectiveRole, hlisted]⟩
  · obtain ⟨hlookup, hnone⟩ := activeRow_eq_some.mp hactive
    have hsub := hvalid sub m hlookup
    refine ⟨sub, ?_, ?_⟩
    · by_cases hlisted : sub ∈ config.adminSubs <;>
        simp [memberStatus, hsub, hlisted, hlookup, hnone]
    · simp [effectiveRole, isMember, hsub, hactive, hrole]

/-- **The household always keeps an admin authority**, whatever is revoked and redeemed in
whatever order, mutual revocations included; if the rows are of subjects that parse, one that can
sign in. And no listed subject is ever revoked. -/
theorem authority_of_runs (db : Db) (hauthority : Authority config db)
    (h : Runs (step hashCode config) anyStep (idle db) s) :
    Authority config s.db ∧
    (RowsValid db → ∃ sub, memberStatus s.db config.adminSubs sub = .allowed ∧
      effectiveRole s.db config.adminSubs sub = .admin) ∧
    ∀ sub ∈ config.adminSubs, .revoked sub ∉ s.log ∧
      ∀ m, activeRow db sub = some m → activeRow s.db sub = some m := by
  have hauth : Authority config s.db := h.invariant (P := fun v => Authority config v.db) hauthority
    fun _ _ _ hv _ hstep => hv.step (writes_of_step hstep)
  refine ⟨hauth, fun hvalid => hauth.exists_admin ?_, fun sub hlisted => ⟨?_, fun m hm => ?_⟩⟩
  · exact h.invariant (P := fun v => RowsValid v.db) hvalid
      fun _ _ _ hv _ hstep => hv.step (writes_of_step hstep)
  · refine h.invariant (P := fun v => .revoked sub ∉ v.log) (by simp [idle])
      fun v a w hv _ hstep => ?_
    rcases writes_of_step hstep with ⟨-, hlog⟩ | ⟨p, -, -, hlog⟩ | ⟨p, -, -, -, hlog⟩ |
      ⟨_, _, _, _, _, _, -, -, hlog⟩ | ⟨_, _, -, hlog⟩ | ⟨sub', now, howner, -, -, hlog⟩
    · simpa [hlog] using hv
    · simpa [hlog] using hv
    · simpa [hlog] using hv
    · simpa [hlog] using hv
    · simpa [hlog] using hv
    · have hne : sub ≠ sub' := fun heq => howner (heq ▸ hlisted)
      simp [hlog, hne, hv]
  · exact h.invariant (P := fun v => activeRow v.db sub = some m) hm
      fun _ _ _ hv _ hstep => activeRow_of_listed (writes_of_step hstep) hlisted hv

def administrator : Member := ⟨none, .admin, "plex", none, "2026-01-01T00:00:00.000Z", none⟩

def couple : Db :=
  { Db.empty with members := (Table.insert "plex:2" administrator ∅).insert "plex:1" administrator }

/-- Two administrators revoke each other, and the one who is left tries to leave. -/
theorem authority_of_runs_couple : ∃ s, Runs (step id ⟨[], by simp⟩) anyStep (idle couple) s ∧
    s.log = [.revoked "plex:2"] ∧ ∃ sub, memberStatus s.db [] sub = .allowed ∧
      effectiveRole s.db [] sub = .admin := by
  have h : ∃ s, exec (step id ⟨[], by simp⟩) (idle couple)
      [.revokeSafely "plex:2" "plex:1" "2026-01-02T00:00:00.000Z" false,
        .revokeSafely "plex:1" "plex:2" "2026-01-02T00:00:00.000Z" false,
        .revokeSelf "plex:1" "2026-01-03T00:00:00.000Z" false] = some s ∧
      s.log = [.revoked "plex:2"] := ⟨_, rfl, rfl⟩
  obtain ⟨s, hs, hlog⟩ := h
  have hauthority : Authority ⟨[], by simp⟩ couple :=
    Or.inr ⟨"plex:1", administrator, by decide, rfl⟩
  have hvalid : RowsValid couple := by
    rintro sub m hm
    rcases eq_or_ne sub "plex:1" with rfl | hne
    · decide
    rcases eq_or_ne sub "plex:2" with rfl | hne'
    · decide
    · have hnone : couple.members.lookup sub = none :=
        (AList.lookup_insert_ne hne).trans
          ((AList.lookup_insert_ne hne').trans (AList.lookup_empty _))
      exact absurd hm (by simp [hnone])
  have hruns := runs_of_exec hs
  exact ⟨s, hruns, hlog, (authority_of_runs couple hauthority hruns).2.1 hvalid⟩

end Household

end EmeraldExchange.Auth
