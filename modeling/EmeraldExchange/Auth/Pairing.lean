import EmeraldExchange.Auth.DeviceLink
import Mathlib.Data.List.Perm.Basic

/-!
# A code pairs at most once

Whatever statements of `start`, `claim` and `poll` come in whatever order, a code is claimed at most
once and mints at most one token, for who claimed it, in answer to a poll by the device that started
it (`Pairing.paired_of_runs`) – and the poll began before the code expired. The
token itself may be minted later, as a poll reads the time only when it begins
(`Pairing.not_paired_late`).

What happens to one code is an account of its own (`Pairing.Tally`), with four
moves; every statement makes one of them on the account of every code.
-/

namespace EmeraldExchange.Auth

section requests

variable {Key : Type}

/-- Whether a request has consumed a code and has not minted its token yet. -/
def LinkRequest.holds (code : String) : LinkRequest Key → Bool
  | .consumed p => p.code = code
  | .minting p _ => p.code = code
  | _ => false

/-- Whether a request generates a code with its next statement. -/
def LinkRequest.generates : LinkRequest Key → Bool
  | .inserting _ _ => true
  | _ => false

/-- The poll of a request that found its code claimed. -/
def LinkRequest.polled : LinkRequest Key → Option (Polled Key)
  | .consuming p => some p
  | .consumed p => some p
  | .minting p _ => some p
  | _ => none

theorem LinkRequest.holds_eq_false {r : LinkRequest Key} (h : r.polled = none) (code : String) :
    r.holds code = false := by
  rcases r with _ | _ | _ | _ | _ | p | p | ⟨p, _⟩
  case consumed | minting => exact absurd h (by simp [LinkRequest.polled])
  all_goals rfl

/-- A poll that goes on has read the row of its device, claimed and not expired. -/
structure Polled.Reads (p : Polled Key) (db : Db) : Prop where
  row : db.deviceLinkCodes.lookup p.code = some p.row
  device : p.row.deviceId = p.deviceId
  claimed : p.row.claimedSub = some p.sub
  unexpired : p.now ≤ p.row.expiresAt

/-- What it has read stays true: who claimed the code, and who started it. -/
structure Polled.Sound (p : Polled Key) (log : List LinkEvent) : Prop where
  claimed : .claimed p.code p.sub ∈ log
  started : .started p.code p.deviceId p.row.expiresAt ∈ log
  device : p.row.deviceId = p.deviceId
  unexpired : p.now ≤ p.row.expiresAt

end requests

namespace Pairing

variable {Key : Type} {srv : LinkServer Key} {s t : Pairing Key} {db : Db}

/-! ### What pairing is to mean -/

def starts (code : String) (log : List LinkEvent) : ℕ :=
  log.countP fun
    | .started c _ _ => c = code
    | _ => false

def claims (code : String) (log : List LinkEvent) : ℕ :=
  log.countP fun
    | .claimed c _ => c = code
    | _ => false

def mints (code : String) (log : List LinkEvent) : ℕ :=
  log.countP fun
    | .minted m => m.code = code
    | _ => false

/-- **Codes do not collide**: a code that is generated was not started before. -/
def Fresh (s : Pairing Key) : LinkAct → Prop
  | .statement n generated _ => s.requests[n]?.any (·.generates) → starts generated s.log = 0
  | _ => True

instance (s : Pairing Key) : ∀ a, Decidable (Fresh s a)
  | .statement _ _ _ => inferInstanceAs (Decidable (_ = true → _ = 0))
  | .clock _ => inferInstanceAs (Decidable True)
  | .start _ _ _ => inferInstanceAs (Decidable True)
  | .claim _ _ => inferInstanceAs (Decidable True)
  | .poll _ _ => inferInstanceAs (Decidable True)
  | .drop _ => inferInstanceAs (Decidable True)

/-- **Paired at most once**, and only by who may. -/
structure Paired (judged : Minted → ℤ) (db : Db) (s : Pairing Key) : Prop where
  started : ∀ code, starts code s.log ≤ 1
  claimed : ∀ code, claims code s.log ≤ 1
  minted : ∀ code, mints code s.log ≤ 1
  /-- A token is for the subject whose claim took effect, in answer to a poll by the device that
  started the code, and not after the code expired. -/
  token : ∀ m, .minted m ∈ s.log → .claimed m.code m.sub ∈ s.log ∧
    ∃ expiresAt, .started m.code m.deviceId expiresAt ∈ s.log ∧ judged m ≤ expiresAt
  /-- Every row is from before, or of a token that was minted for a code. -/
  row : ∀ jti t, s.db.deviceTokens.lookup jti = some t → db.deviceTokens.lookup jti = some t ∨
    ∃ m, .minted m ∈ s.log ∧ m.jti = jti ∧ t.sub = m.sub ∧ t.deviceId = m.deviceId

/-! ### The account of one code -/

/-- What is known of a code: how often it was started, bound and used, and its row. -/
structure Tally where
  starts : ℕ
  claims : ℕ
  used : ℕ
  row : Option LinkCode

/-- **A valid account**: everything at most once, and what the row still allows has not happened. -/
structure Tally.Valid (c : Tally) : Prop where
  started : c.starts ≤ 1
  claimed : c.claims ≤ 1
  usedOnce : c.used ≤ 1
  fresh : c.starts = 0 → c.row = none ∧ c.claims = 0 ∧ c.used = 0
  unclaimed : ∀ r, c.row = some r → r.claimedSub = none → c.claims = 0
  unconsumed : ∀ r, c.row = some r → r.consumedAt = none → c.used = 0

/-- **What happens to the account of a code.** -/
inductive Tally.Moves : Tally → Tally → Prop
  /-- A request that holds the code may be gone. -/
  | keep {c d : Tally} (hstarts : d.starts = c.starts) (hclaims : d.claims = c.claims)
      (hused : d.used ≤ c.used) (hrow : d.row = c.row ∨ d.row = none) : Moves c d
  | open {c d : Tally} (device : LinkDevice) (now : ℤ) (hfresh : c.starts = 0)
      (hstarts : d.starts = 1) (hclaims : d.claims = c.claims) (hused : d.used = c.used)
      (hrow : d.row = some (.opened device now)) : Moves c d
  | bind {c d : Tally} (r : LinkCode) (caller : Session) (now : ℤ) (hr : c.row = some r)
      (hfree : r.claimedSub = none) (hstarts : d.starts = c.starts)
      (hclaims : d.claims = c.claims + 1) (hused : d.used = c.used)
      (hrow : d.row = some (r.bound caller now)) : Moves c d
  | consume {c d : Tally} (r : LinkCode) (now : ℤ) (hr : c.row = some r)
      (hfree : r.consumedAt = none) (hstarts : d.starts = c.starts) (hclaims : d.claims = c.claims)
      (hused : d.used = c.used + 1) (hrow : d.row = some { r with consumedAt := some now }) :
      Moves c d

/-- **Every move keeps the account valid.** -/
theorem Tally.Valid.moves {c d : Tally} (h : c.Valid) (hmoves : c.Moves d) : d.Valid := by
  rcases hmoves with ⟨hstarts, hclaims, hused, hrow⟩ |
    ⟨device, now, hfresh, hstarts, hclaims, hused, hrow⟩ |
    ⟨r, caller, now, hr, hfree, hstarts, hclaims, hused, hrow⟩ |
    ⟨r, now, hr, hfree, hstarts, hclaims, hused, hrow⟩
  · refine ⟨hstarts ▸ h.started, hclaims ▸ h.claimed, Nat.le_trans hused h.usedOnce,
      fun hzero => ?_, fun r hr hnone => ?_, fun r hr hnone => ?_⟩
    · obtain ⟨hnone, hc, hu⟩ := h.fresh (hstarts ▸ hzero)
      refine ⟨?_, hclaims.trans hc, by omega⟩
      rcases hrow with hrow | hrow
      · exact hrow.trans hnone
      · exact hrow
    · rcases hrow with hrow | hrow
      · exact hclaims.trans (h.unclaimed r (hrow ▸ hr) hnone)
      · exact absurd (hrow.symm.trans hr) (by simp)
    · rcases hrow with hrow | hrow
      · have := h.unconsumed r (hrow ▸ hr) hnone
        omega
      · exact absurd (hrow.symm.trans hr) (by simp)
  · obtain ⟨-, hc, hu⟩ := h.fresh hfresh
    exact ⟨by omega, by omega, by omega, by omega, fun _ _ _ => by omega, fun _ _ _ => by omega⟩
  · -- the row that is bound was free, so no claim had bound it
    have hzero := h.unclaimed r hr hfree
    have hstarted : c.starts ≠ 0 := fun hno => absurd (hr.symm.trans (h.fresh hno).1) (by simp)
    refine ⟨hstarts ▸ h.started, by omega, hused ▸ h.usedOnce, by omega, fun r' hr' hnone => ?_,
      fun r' hr' hnone => ?_⟩
    · obtain rfl := Option.some.inj (hrow.symm.trans hr')
      exact absurd hnone (by simp [LinkCode.bound])
    · obtain rfl := Option.some.inj (hrow.symm.trans hr')
      exact hused.trans (h.unconsumed r hr hnone)
  · -- the row that is consumed was not, so no poll had used it
    have hzero := h.unconsumed r hr hfree
    have hstarted : c.starts ≠ 0 := fun hno => absurd (hr.symm.trans (h.fresh hno).1) (by simp)
    refine ⟨hstarts ▸ h.started, hclaims ▸ h.claimed, by omega, by omega, fun r' hr' hnone => ?_,
      fun r' hr' hnone => ?_⟩
    · obtain rfl := Option.some.inj (hrow.symm.trans hr')
      exact hclaims.trans (h.unclaimed r hr hnone)
    · obtain rfl := Option.some.inj (hrow.symm.trans hr')
      exact absurd hnone (by simp)

/-! ### What a statement does -/

def holders (code : String) (requests : List (LinkRequest Key)) : ℕ :=
  requests.countP fun r => r.holds code

/-- The account of a code. Whoever holds it may still mint its token. -/
def tally (s : Pairing Key) (code : String) : Tally where
  starts := starts code s.log
  claims := claims code s.log
  used := mints code s.log + holders code s.requests
  row := s.db.deviceLinkCodes.lookup code

theorem holders_eraseIdx {n : ℕ} {r : LinkRequest Key} {requests : List (LinkRequest Key)}
    (h : requests[n]? = some r) (code : String) :
    holders code requests = holders code (requests.eraseIdx n) + if r.holds code then 1 else 0 := by
  obtain ⟨hlt, rfl⟩ := List.getElem?_eq_some_iff.mp h
  have hperm := (List.getElem_cons_eraseIdx_perm hlt).countP_eq fun r => r.holds code
  rw [List.countP_cons] at hperm
  exact hperm.symm

/-- **What the statement of a request does**, by the request it leaves. -/
inductive Effect (s t : Pairing Key) (generated : String) (r : LinkRequest Key)
    (next : Option (LinkRequest Key)) : Prop
  | quiet (hcodes : t.db.deviceLinkCodes = s.db.deviceLinkCodes)
      (htokens : t.db.deviceTokens = s.db.deviceTokens) (hlog : t.log = s.log)
      (hholds : ∀ r' ∈ next, ∀ code, r'.holds code → r.holds code)
      (hpolled : ∀ r' ∈ next, ∀ p, r'.polled = some p → r.polled = some p ∨ p.Reads s.db)
  | deleted (horizon : ℤ) (hcodes : t.db.deviceLinkCodes =
        s.db.deviceLinkCodes.retain fun row => !(row.expiresAt < horizon))
      (htokens : t.db.deviceTokens = s.db.deviceTokens) (hlog : t.log = s.log)
      (hnext : ∀ r' ∈ next, r'.polled = none)
  | started (device : LinkDevice) (now : ℤ) (hr : r = .inserting device now)
      (hcodes : t.db.deviceLinkCodes =
        s.db.deviceLinkCodes.insert generated (.opened device now))
      (htokens : t.db.deviceTokens = s.db.deviceTokens)
      (hlog : t.log = .started generated device.deviceId (now + linkCodeTtlSecs) :: s.log)
      (hnext : next = none)
  | claimed (code : String) (caller : Session) (now : ℤ) (read row : LinkCode)
      (hr : r = .binding caller code now read)
      (hrow : s.db.deviceLinkCodes.lookup code = some row) (hfree : row.claimedSub = none)
      (hcodes : t.db.deviceLinkCodes =
        s.db.deviceLinkCodes.modify code fun row => row.bound caller now)
      (htokens : t.db.deviceTokens = s.db.deviceTokens)
      (hlog : t.log = .claimed code caller.sub :: s.log) (hnext : next = none)
  | consumed (p : Polled Key) (row : LinkCode) (hr : r = .consuming p)
      (hrow : s.db.deviceLinkCodes.lookup p.code = some row) (hfree : row.consumedAt = none)
      (hcodes : t.db.deviceLinkCodes =
        s.db.deviceLinkCodes.modify p.code fun row => { row with consumedAt := some p.now })
      (htokens : t.db.deviceTokens = s.db.deviceTokens) (hlog : t.log = s.log)
      (hnext : next = some (.consumed p))
  | minted (p : Polled Key) (serverId : String) (row : DeviceToken) (hr : r = .minting p serverId)
      (hsub : row.sub = p.sub) (hdevice : row.deviceId = p.row.deviceId)
      (hcodes : t.db.deviceLinkCodes = s.db.deviceLinkCodes)
      (htokens : t.db.deviceTokens = s.db.deviceTokens.insert generated row)
      (hlog : t.log = .minted ⟨p.code, p.deviceId, p.sub, generated, p.now, s.clock⟩ :: s.log)
      (hnext : next = none)

theorem reads_of_pollVerdict {code deviceId : String} {now : ℤ} {r : LinkRequest Key}
    (h : pollVerdict srv code deviceId now (db.deviceLinkCodes.lookup code) = .inl r) :
    ∃ p, r = .consuming p ∧ p.Reads db := by
  cases hrow : db.deviceLinkCodes.lookup code with
  | none =>
    rw [hrow] at h
    exact absurd h (by simp [pollVerdict])
  | some row =>
    rw [hrow] at h
    simp only [pollVerdict] at h
    split at h
    · exact absurd h (by simp)
    next hdevice =>
    split at h
    · exact absurd h (by simp)
    next hexpired =>
    split at h
    · exact absurd h (by simp)
    next sub hsub =>
    split at h
    · exact absurd h (by simp)
    split at h
    · exact absurd h (by simp)
    · obtain rfl := Sum.inl.inj h
      simp only [not_or, not_not] at hdevice
      exact ⟨_, rfl, hrow, hdevice.1, hsub, Int.not_lt.mp hexpired⟩

theorem polled_of_claimVerdict {caller : Session} {code : String} {now : ℤ}
    {row : Option LinkCode} {r : LinkRequest Key}
    (h : claimVerdict caller code now row = .inl r) : r.polled = none := by
  rcases row with _ | row
  · exact absurd h (by simp [claimVerdict])
  · simp only [claimVerdict] at h
    split at h
    · exact absurd h (by simp)
    split at h
    · exact absurd h (by simp)
    · obtain rfl := Sum.inl.inj h
      rfl

theorem requests_statement (s : Pairing Key) (generated : String) (r : LinkRequest Key) :
    (s.statement srv generated r).1.requests = s.requests := by
  rcases r with ⟨device, now⟩ | ⟨device, now⟩ | ⟨caller, code, now⟩ | ⟨caller, code, now, row⟩ |
    ⟨code, deviceId, now⟩ | p | p | ⟨p, serverId⟩
  case inserting | binding | consuming | minting =>
    simp only [statement]
    split <;> rfl
  all_goals rfl

/-- **Every statement has one of these effects.** -/
theorem effect_of_statement (s : Pairing Key) (generated : String) (r : LinkRequest Key) :
    Effect s (s.statement srv generated r).1 generated r
      (s.statement srv generated r).2.getLeft? := by
  rcases r with ⟨device, now⟩ | ⟨device, now⟩ | ⟨caller, code, now⟩ | ⟨caller, code, now, row⟩ |
    ⟨code, deviceId, now⟩ | p | p | ⟨p, serverId⟩
  · exact .deleted (now - linkCodeTtlSecs) rfl rfl rfl (by simp [statement, LinkRequest.polled])
  · simp only [statement]
    split
    · exact .quiet rfl rfl rfl (by simp) (by simp)
    · exact .started device now rfl rfl rfl rfl rfl
  · refine .quiet rfl rfl rfl (fun r' hr' code' hholds => ?_) fun r' hr' p hp => ?_
    · have hnone := polled_of_claimVerdict (Sum.getLeft?_eq_some_iff.mp hr')
      exact absurd hholds (by simp [LinkRequest.holds_eq_false hnone])
    · have hnone := polled_of_claimVerdict (Sum.getLeft?_eq_some_iff.mp hr')
      exact absurd hp (by simp [hnone])
  · simp only [statement]
    split
    · next h =>
      obtain ⟨row', hrow, hfree⟩ := (Option.any_eq_true _ _).mp h
      exact .claimed code caller now row row' rfl hrow (by simpa using hfree) rfl rfl rfl rfl
    · exact .quiet rfl rfl rfl (by simp) (by simp)
  · refine .quiet rfl rfl rfl (fun r' hr' code' hholds => ?_) fun r' hr' p hp => ?_
    · obtain ⟨p, rfl, -⟩ := reads_of_pollVerdict (Sum.getLeft?_eq_some_iff.mp hr')
      exact absurd hholds (by simp [LinkRequest.holds])
    · obtain ⟨p', rfl, hreads⟩ := reads_of_pollVerdict (Sum.getLeft?_eq_some_iff.mp hr')
      obtain rfl := Option.some.inj hp
      exact Or.inr hreads
  · simp only [statement]
    split
    · next h =>
      obtain ⟨row, hrow, hfree⟩ := (Option.any_eq_true _ _).mp h
      exact .consumed p row rfl hrow (by simpa using hfree) rfl rfl rfl rfl
    · exact .quiet rfl rfl rfl (by simp) (by simp)
  · exact .quiet rfl rfl rfl (by simp [statement, LinkRequest.holds])
      (by simp [statement, LinkRequest.polled])
  · simp only [statement]
    split
    · exact .quiet rfl rfl rfl (by simp) (by simp)
    · next token db hmint =>
      obtain ⟨-, rfl⟩ := mint_eq_ok _ _ hmint
      exact .minted p serverId _ rfl rfl rfl rfl rfl rfl rfl

/-! ### Every statement moves every account -/

section effect

variable {u : Pairing Key} {generated : String} {n : ℕ} {r : LinkRequest Key}
  {next : Option (LinkRequest Key)}

theorem holders_next (hreq : u.requests = s.requests.eraseIdx n ++ next.toList)
    (hr : s.requests[n]? = some r) (code : String) :
    holders code u.requests + (if r.holds code then 1 else 0) =
      holders code s.requests + if next.any (·.holds code) then 1 else 0 := by
  rw [holders_eraseIdx hr, hreq, holders, List.countP_append]
  rcases next with _ | r'
  · simp [holders]
  · simp only [Option.toList_some, List.countP_singleton, Option.any_some, holders]
    omega

/-- **Every statement makes one move on the account of every code.** -/
theorem moves_of_effect (hr : s.requests[n]? = some r)
    (hfresh : ∀ device now, r = .inserting device now → starts generated s.log = 0)
    (heffect : Effect { s with requests := s.requests.eraseIdx n } t generated r next)
    (hdb : u.db = t.db) (hlog : u.log = t.log)
    (hreq : u.requests = s.requests.eraseIdx n ++ next.toList) (code : String) :
    (tally s code).Moves (tally u code) := by
  have hholders := holders_next hreq hr code
  rcases heffect with ⟨hcodes, -, hlog', hholds, -⟩ | ⟨horizon, hcodes, -, hlog', hnext⟩ |
    ⟨device, now, rfl, hcodes, -, hlog', rfl⟩ |
    ⟨code', caller, now, read, row, rfl, hrow, hfree, hcodes, -, hlog', rfl⟩ |
    ⟨p, row, rfl, hrow, hfree, hcodes, -, hlog', rfl⟩ |
    ⟨p, serverId, row, rfl, -, -, hcodes, -, hlog', rfl⟩
  · refine .keep ?_ ?_ ?_ (Or.inl ?_)
    · simp [tally, hlog, hlog']
    · simp [tally, hlog, hlog']
    · have hle : (if next.any (·.holds code) then 1 else 0) ≤ if r.holds code then 1 else 0 := by
        rcases next with _ | r'
        · simp
        · have := hholds r' rfl code
          simp only [Option.any_some]
          split <;> split <;> simp_all
      simp only [tally, hlog, hlog']
      omega
    · simp [tally, hdb, hcodes]
  · refine .keep ?_ ?_ ?_ ?_
    · simp [tally, hlog, hlog']
    · simp [tally, hlog, hlog']
    · have hzero : next.any (·.holds code) = false := by
        rcases next with _ | r'
        · rfl
        · simp [LinkRequest.holds_eq_false (hnext r' rfl)]
      simp only [tally, hlog, hlog']
      rw [hzero] at hholders
      simp only [Bool.false_eq_true, if_false] at hholders
      omega
    · simp only [tally, hdb, hcodes, Table.lookup_retain]
      rcases s.db.deviceLinkCodes.lookup code with _ | row
      · exact Or.inl rfl
      · by_cases hkept : row.expiresAt < horizon <;> simp [Option.filter, hkept]
  · -- a new code, and none of the others
    simp only [LinkRequest.holds, Option.any_none, Bool.false_eq_true, if_false,
      Nat.add_zero] at hholders
    rcases eq_or_ne code generated with rfl | hne
    · have hzero := hfresh device now rfl
      refine .open device now hzero ?_ ?_ ?_ ?_
      · simpa [tally, hlog, hlog', starts] using hzero
      · simp [tally, hlog, hlog', claims]
      · simp [tally, hlog, hlog', mints, hholders]
      · simp [tally, hdb, hcodes]
    · refine .keep ?_ ?_ ?_ (Or.inl ?_)
      · simp [tally, hlog, hlog', starts, hne.symm]
      · simp [tally, hlog, hlog', claims]
      · simp [tally, hlog, hlog', mints, hholders]
      · simp [tally, hdb, hcodes, AList.lookup_insert_ne hne]
  · simp only [LinkRequest.holds, Option.any_none, Bool.false_eq_true, if_false,
      Nat.add_zero] at hholders
    rcases eq_or_ne code code' with rfl | hne
    · refine .bind row caller now hrow hfree ?_ ?_ ?_ ?_
      · simp [tally, hlog, hlog', starts]
      · simp [tally, hlog, hlog', claims]
      · simp [tally, hlog, hlog', mints, hholders]
      · simp [tally, hdb, hcodes, Table.lookup_modify, hrow]
    · refine .keep ?_ ?_ ?_ (Or.inl ?_)
      · simp [tally, hlog, hlog', starts]
      · simp [tally, hlog, hlog', claims, hne.symm]
      · simp [tally, hlog, hlog', mints, hholders]
      · simp [tally, hdb, hcodes, Table.lookup_modify, hne]
  · simp only [LinkRequest.holds, Option.any_some, Bool.false_eq_true, if_false,
      Nat.add_zero, decide_eq_true_eq] at hholders
    rcases eq_or_ne code p.code with rfl | hne
    · refine .consume row p.now hrow hfree ?_ ?_ ?_ ?_
      · simp [tally, hlog, hlog']
      · simp [tally, hlog, hlog']
      · simp only [if_true] at hholders
        simp only [tally, hlog, hlog', hholders]
        omega
      · simp [tally, hdb, hcodes, Table.lookup_modify, hrow]
    · simp only [hne.symm, if_false, Nat.add_zero] at hholders
      refine .keep ?_ ?_ ?_ (Or.inl ?_)
      · simp [tally, hlog, hlog']
      · simp [tally, hlog, hlog']
      · simp [tally, hlog, hlog', hholders]
      · simp [tally, hdb, hcodes, Table.lookup_modify, hne]
  · -- whoever held the code has minted its token
    refine .keep ?_ ?_ ?_ (Or.inl ?_)
    · simp [tally, hlog, hlog', starts]
    · simp [tally, hlog, hlog', claims]
    · simp only [LinkRequest.holds, Option.any_none, Bool.false_eq_true, if_false,
        Nat.add_zero, decide_eq_true_eq] at hholders
      simp only [tally, hlog, hlog', mints, List.countP_cons, decide_eq_true_eq]
      omega
    · simp [tally, hdb, hcodes]

end effect

/-- **What a step does**: it begins or ends requests, or runs a statement of one. -/
theorem step_cases {a : LinkAct} (h : step srv s a = some t) :
    (t.db = s.db ∧ t.log = s.log ∧ (∀ r ∈ t.requests, r ∈ s.requests ∨ r.polled = none) ∧
      ∀ code, holders code t.requests ≤ holders code s.requests) ∨
    ∃ n generated r v next, a = .statement n generated false ∧ s.requests[n]? = some r ∧
      Effect { s with requests := s.requests.eraseIdx n } v generated r next ∧
      t.db = v.db ∧ t.log = v.log ∧ t.requests = s.requests.eraseIdx n ++ next.toList := by
  -- what only begins a request
  have hbegin : ∀ r : LinkRequest Key, r.polled = none → t = s.begin r →
      t.db = s.db ∧ t.log = s.log ∧ (∀ r ∈ t.requests, r ∈ s.requests ∨ r.polled = none) ∧
        ∀ code, holders code t.requests ≤ holders code s.requests := by
    rintro r hr rfl
    refine ⟨rfl, rfl, fun r' hr' => ?_, fun code => ?_⟩
    · rcases List.mem_append.mp hr' with hold | hnew
      · exact Or.inl hold
      · obtain rfl := List.mem_singleton.mp hnew
        exact Or.inr hr
    · simp [begin, holders, List.countP_append, LinkRequest.holds_eq_false hr]
  -- what only ends one
  have herase : ∀ n, t.db = s.db → t.log = s.log → t.requests = s.requests.eraseIdx n →
      t.db = s.db ∧ t.log = s.log ∧ (∀ r ∈ t.requests, r ∈ s.requests ∨ r.polled = none) ∧
        ∀ code, holders code t.requests ≤ holders code s.requests := by
    intro n hdb hlog hreq
    refine ⟨hdb, hlog, fun r hr => Or.inl (List.mem_of_mem_eraseIdx (hreq ▸ hr)), fun code => ?_⟩
    rw [hreq]
    exact (List.eraseIdx_sublist ..).countP_le
  rcases a with now | ⟨deviceId, deviceName, devicePlatform⟩ | ⟨caller, code⟩ | ⟨code, deviceId⟩ |
    ⟨n, generated, fault⟩ | n
  · obtain rfl := Option.some.inj h
    exact Or.inl ⟨rfl, rfl, fun _ hr => Or.inl hr, fun _ => le_rfl⟩
  · simp only [step] at h
    split at h
    · obtain rfl := Option.some.inj h
      exact Or.inl ⟨rfl, rfl, fun _ hr => Or.inl hr, fun _ => le_rfl⟩
    · exact Or.inl (hbegin _ rfl (Option.some.inj h).symm)
  · simp only [step] at h
    split at h
    · obtain rfl := Option.some.inj h
      exact Or.inl ⟨rfl, rfl, fun _ hr => Or.inl hr, fun _ => le_rfl⟩
    · exact Or.inl (hbegin _ rfl (Option.some.inj h).symm)
  · simp only [step] at h
    split at h
    · obtain rfl := Option.some.inj h
      exact Or.inl ⟨rfl, rfl, fun _ hr => Or.inl hr, fun _ => le_rfl⟩
    · exact Or.inl (hbegin _ rfl (Option.some.inj h).symm)
  · obtain ⟨r, hr, rfl⟩ := Option.map_eq_some_iff.mp h
    rcases fault with _ | _
    · have heffect (u : Pairing Key) : Effect u (u.statement srv generated r).1 generated r
          (u.statement srv generated r).2.getLeft? := effect_of_statement u generated r
      refine Or.inr ⟨n, generated, r, _, _, rfl, hr, heffect _, ?_⟩
      have hreq : ∀ s' : Pairing Key, (s'.statement srv generated r).1.requests = s'.requests :=
        fun s' => requests_statement s' generated r
      simp only [Bool.false_eq_true, if_false]
      split
      · next v r' heq =>
        have hv := hreq { s with requests := s.requests.eraseIdx n }
        rw [heq] at hv ⊢
        exact ⟨rfl, rfl, by simpa [begin] using hv⟩
      · next v answer heq =>
        have hv := hreq { s with requests := s.requests.eraseIdx n }
        rw [heq] at hv ⊢
        exact ⟨rfl, rfl, by simpa [Pairing.answer] using hv⟩
    · exact Or.inl (herase n rfl rfl rfl)
  · obtain rfl := Option.some.inj h
    exact Or.inl (herase n rfl rfl rfl)

/-! ### Every run -/

/-- **What holds in every state.** -/
structure Kept (db : Db) (s : Pairing Key) : Prop where
  tally : ∀ code, (tally s code).Valid
  row : ∀ code row, s.db.deviceLinkCodes.lookup code = some row →
    .started code row.deviceId row.expiresAt ∈ s.log ∧
      ∀ sub, row.claimedSub = some sub → .claimed code sub ∈ s.log
  polled : ∀ r ∈ s.requests, ∀ p, r.polled = some p → p.Sound s.log
  token : ∀ m, .minted m ∈ s.log → .claimed m.code m.sub ∈ s.log ∧
    ∃ expiresAt, .started m.code m.deviceId expiresAt ∈ s.log ∧ m.polledAt ≤ expiresAt
  tokens : ∀ jti t, s.db.deviceTokens.lookup jti = some t →
    db.deviceTokens.lookup jti = some t ∨
      ∃ m, .minted m ∈ s.log ∧ m.jti = jti ∧ t.sub = m.sub ∧ t.deviceId = m.deviceId

theorem kept_start (db : Db) (serverId : Option String) (now : ℤ) :
    Kept db (start db serverId now : Pairing Key) := by
  refine ⟨fun code => ?_, fun code row h => ?_, by simp [start], by simp [start],
    fun jti t h => Or.inl h⟩
  · constructor <;> simp [tally, start, starts, claims, mints, holders]
  · exact absurd h (by simp [start])

theorem Kept.sound (h : Kept db s) {p : Polled Key} (hp : p.Reads s.db) : p.Sound s.log := by
  obtain ⟨hstarted, hclaimed⟩ := h.row p.code p.row hp.row
  exact ⟨hclaimed p.sub hp.claimed, hp.device ▸ hstarted, hp.device, hp.unexpired⟩

theorem sound_mono {p : Polled Key} (h : p.Sound s.log) (hlog : s.log ⊆ t.log) : p.Sound t.log :=
  ⟨hlog h.claimed, hlog h.started, h.device, h.unexpired⟩

section effect

variable {generated : String} {r : LinkRequest Key} {next : Option (LinkRequest Key)}

theorem log_of_effect (heffect : Effect s t generated r next) : s.log ⊆ t.log := by
  rcases heffect with ⟨-, -, hlog, -, -⟩ | ⟨-, -, -, hlog, -⟩ | ⟨_, _, -, -, -, hlog, -⟩ |
    ⟨_, _, _, _, _, -, -, -, -, -, hlog, -⟩ | ⟨_, _, -, -, -, -, -, hlog, -⟩ |
    ⟨_, _, _, -, -, -, -, -, hlog, -⟩
  case quiet | deleted | consumed => exact hlog.symm ▸ List.Subset.refl _
  all_goals exact hlog.symm ▸ List.subset_cons_self _ _

/-- **The rows stay true** of who started and who claimed a code. -/
theorem Kept.row_of_effect (h : Kept db s) (heffect : Effect s t generated r next) :
    ∀ code row, t.db.deviceLinkCodes.lookup code = some row →
      .started code row.deviceId row.expiresAt ∈ t.log ∧
        ∀ sub, row.claimedSub = some sub → .claimed code sub ∈ t.log := by
  have hlog := log_of_effect heffect
  have hold : ∀ code row, s.db.deviceLinkCodes.lookup code = some row →
      .started code row.deviceId row.expiresAt ∈ t.log ∧
        ∀ sub, row.claimedSub = some sub → .claimed code sub ∈ t.log := fun code row hrow =>
    ⟨hlog (h.row code row hrow).1, fun sub hsub => hlog ((h.row code row hrow).2 sub hsub)⟩
  rcases heffect with ⟨hcodes, -⟩ | ⟨horizon, hcodes, -⟩ | ⟨device, now, rfl, hcodes, -, hlog', -⟩ |
    ⟨code', caller, now, read, row', -, hrow', hfree, hcodes, -, hlog', -⟩ |
    ⟨p, row', -, hrow', hfree, hcodes, -⟩ | ⟨p, serverId, row', -, -, -, hcodes, -⟩
  · exact hcodes ▸ hold
  · intro code row hrow
    rw [hcodes, Table.lookup_retain, Option.filter_eq_some_iff] at hrow
    exact hold code row hrow.1
  · intro code row hrow
    rw [hcodes] at hrow
    rcases Table.lookup_insert_cases hrow with ⟨rfl, rfl⟩ | ⟨-, hrow⟩
    · exact ⟨by simp [hlog', LinkCode.opened], by simp [LinkCode.opened]⟩
    · exact hold code row hrow
  · intro code row hrow
    rw [hcodes, Table.lookup_modify] at hrow
    obtain ⟨row₀, hrow₀, rfl⟩ := Option.map_eq_some_iff.mp hrow
    split
    · next heq =>
      subst heq
      refine ⟨(hold code row₀ hrow₀).1, fun sub hsub => ?_⟩
      obtain rfl : caller.sub = sub := Option.some.inj hsub
      simp [hlog']
    · exact hold code row₀ hrow₀
  · intro code row hrow
    rw [hcodes, Table.lookup_modify] at hrow
    obtain ⟨row₀, hrow₀, rfl⟩ := Option.map_eq_some_iff.mp hrow
    split <;> exact hold code row₀ hrow₀
  · exact hcodes ▸ hold

/-- **A request that goes on has read what is true.** -/
theorem Kept.sound_of_effect (h : Kept db s) (heffect : Effect s t generated r next)
    (hr : ∀ p, r.polled = some p → p.Sound s.log) :
    ∀ r' ∈ next, ∀ p, r'.polled = some p → p.Sound t.log := by
  have hlog := log_of_effect heffect
  rcases heffect with ⟨-, -, -, -, hpolled⟩ | ⟨-, -, -, -, hnext⟩ | ⟨_, _, -, -, -, -, rfl⟩ |
    ⟨_, _, _, _, _, -, -, -, -, -, -, rfl⟩ | ⟨p, _, rfl, -, -, -, -, -, rfl⟩ |
    ⟨_, _, _, -, -, -, -, -, -, rfl⟩
  · intro r' hr' p hp
    rcases hpolled r' hr' p hp with hsame | hreads
    · exact sound_mono (hr p hsame) hlog
    · exact sound_mono (h.sound hreads) hlog
  · intro r' hr' p hp
    exact absurd hp (by simp [hnext r' hr'])
  · simp
  · simp
  · rintro r' hr' p' hp'
    obtain rfl := Option.some.inj hr'
    obtain rfl := Option.some.inj hp'
    exact sound_mono (hr p rfl) hlog
  · simp

/-- **A token that is minted is for who claimed the code**, and its row is the token's. -/
theorem Kept.tokens_of_effect (h : Kept db s) (heffect : Effect s t generated r next)
    (hr : ∀ p, r.polled = some p → p.Sound s.log) :
    (∀ m, .minted m ∈ t.log → .claimed m.code m.sub ∈ t.log ∧
      ∃ expiresAt, .started m.code m.deviceId expiresAt ∈ t.log ∧ m.polledAt ≤ expiresAt) ∧
    ∀ jti t', t.db.deviceTokens.lookup jti = some t' → db.deviceTokens.lookup jti = some t' ∨
      ∃ m, .minted m ∈ t.log ∧ m.jti = jti ∧ t'.sub = m.sub ∧ t'.deviceId = m.deviceId := by
  have hlog := log_of_effect heffect
  have hold : ∀ m, .minted m ∈ s.log → .claimed m.code m.sub ∈ t.log ∧
      ∃ expiresAt, .started m.code m.deviceId expiresAt ∈ t.log ∧ m.polledAt ≤ expiresAt := by
    intro m hm
    obtain ⟨hclaimed, expiresAt, hstarted, hle⟩ := h.token m hm
    exact ⟨hlog hclaimed, expiresAt, hlog hstarted, hle⟩
  have hrows : ∀ jti t', s.db.deviceTokens.lookup jti = some t' →
      db.deviceTokens.lookup jti = some t' ∨
        ∃ m, .minted m ∈ t.log ∧ m.jti = jti ∧ t'.sub = m.sub ∧ t'.deviceId = m.deviceId := by
    intro jti t' ht'
    rcases h.tokens jti t' ht' with hbefore | ⟨m, hm, hjti, hsub, hdevice⟩
    · exact Or.inl hbefore
    · exact Or.inr ⟨m, hlog hm, hjti, hsub, hdevice⟩
  rcases heffect with ⟨-, htokens, hlog', -⟩ | ⟨-, -, htokens, hlog', -⟩ |
    ⟨_, _, -, -, htokens, hlog', -⟩ | ⟨_, _, _, _, _, -, -, -, -, htokens, hlog', -⟩ |
    ⟨_, _, -, -, -, -, htokens, hlog', -⟩ |
    ⟨p, serverId, row, rfl, hsub, hdevice, -, htokens, hlog', -⟩
  case minted =>
    have hsound := hr p rfl
    refine ⟨fun m hm => ?_, fun jti t' ht' => ?_⟩
    · rw [hlog', List.mem_cons] at hm
      rcases hm with heq | hm
      · obtain rfl := LinkEvent.minted.inj heq
        exact ⟨hlog hsound.claimed, p.row.expiresAt, hlog hsound.started, hsound.unexpired⟩
      · exact hold m hm
    · rw [htokens] at ht'
      rcases Table.lookup_insert_cases ht' with ⟨rfl, rfl⟩ | ⟨-, ht'⟩
      · exact Or.inr ⟨_, hlog' ▸ List.mem_cons_self, rfl, hsub, hdevice.trans hsound.device⟩
      · exact hrows jti t' ht'
  all_goals
    refine ⟨fun m hm => hold m ?_, fun jti t' ht' => hrows jti t' (htokens ▸ ht')⟩
    simpa [hlog'] using hm

end effect

/-- **Every step keeps what holds**, if codes do not collide. -/
theorem Kept.step (h : Kept db s) {a : LinkAct} (hfresh : Fresh s a)
    (hstep : step srv s a = some t) : Kept db t := by
  rcases step_cases hstep with ⟨hdb, hlog, hreq, hholders⟩ |
    ⟨n, generated, r, v, next, rfl, hr, heffect, hdb, hlog, hreq⟩
  · refine ⟨fun code => (h.tally code).moves (.keep ?_ ?_ ?_ (Or.inl ?_)), ?_, fun r hr p hp => ?_,
      ?_, ?_⟩
    · simp [Pairing.tally, hlog]
    · simp [Pairing.tally, hlog]
    · simpa [Pairing.tally, hlog] using hholders code
    · simp [Pairing.tally, hdb]
    · exact hdb ▸ hlog ▸ h.row
    · rcases hreq r hr with hold | hnone
      · exact hlog ▸ h.polled r hold p hp
      · exact absurd hp (by simp [hnone])
    · exact hlog ▸ h.token
    · exact hdb ▸ hlog ▸ h.tokens
  · have hmem := List.mem_of_getElem? hr
    have hrest : Kept db { s with requests := s.requests.eraseIdx n } :=
      ⟨fun code => (h.tally code).moves (.keep rfl rfl
          (Nat.add_le_add_left (List.eraseIdx_sublist ..).countP_le _) (Or.inl rfl)),
        h.row, fun r' hr' => h.polled r' (List.mem_of_mem_eraseIdx hr'), h.token, h.tokens⟩
    have hsubset := log_of_effect heffect
    rw [← hlog] at hsubset
    refine ⟨fun code => (h.tally code).moves (moves_of_effect hr ?_ heffect hdb hlog hreq code),
      ?_, fun r' hr' p hp => ?_, ?_, ?_⟩
    · rintro device now rfl
      exact hfresh (by simp [hr, LinkRequest.generates])
    · exact hdb ▸ hlog ▸ hrest.row_of_effect heffect
    · rw [hreq, List.mem_append, Option.mem_toList] at hr'
      rcases hr' with hold | hnew
      · exact sound_mono (h.polled r' (List.mem_of_mem_eraseIdx hold) p hp) hsubset
      · exact hlog ▸ hrest.sound_of_effect heffect (h.polled r hmem) r' hnew p hp
    · exact hlog ▸ (hrest.tokens_of_effect heffect (h.polled r hmem)).1
    · exact hdb ▸ hlog ▸ (hrest.tokens_of_effect heffect (h.polled r hmem)).2

/-- **A code pairs at most once.** -/
theorem paired_of_runs (db : Db) (serverId : Option String) (now : ℤ)
    (h : Runs (step srv) Fresh (start db serverId now) s) : Paired Minted.polledAt db s := by
  have hkept : Kept db s := h.invariant (kept_start db serverId now)
    fun _ _ _ hv hfresh hstep => hv.step hfresh hstep
  exact ⟨fun code => (hkept.tally code).started, fun code => (hkept.tally code).claimed,
    fun code => le_trans (Nat.le_add_right _ _) (hkept.tally code).usedOnce, hkept.token,
    hkept.tokens⟩

/-- A server with one key, at the times of the examples. -/
def livingRoomServer : LinkServer Unit where
  jwe :=
    { header := fun _ => some ⟨"dir", "A256GCM", defaultKid⟩
      decryptWithKey := fun _ _ => none
      claims := fun _ => none
      encrypt := fun _ _ claims =>
        "eyJhbGciOiJkaXIiLCJlbmMiOiJBMjU2R0NNIiwia2lkIjoiZGV2aWNlLXYxIn0.." ++ claims.jti }
  deviceKeys := some (Keys.single ())
  iso now :=
    if now = 1767225660 then "2026-01-01T00:01:00.000Z"
    else if now = 1767225660 + defaultTtlSecs then "2026-06-30T00:01:00.000Z"
    else if now = 1767226201 then "2026-01-01T00:10:01.000Z"
    else "2026-06-30T00:10:01.000Z"
  toUppercase c := [c.toUpper]

/-- A code is started, claimed, and polled twice a minute later; the token is minted at a time of
its own. -/
def livingRoom (mintedAt : ℤ) : List LinkAct :=
  [.start (some "01HABCDEFGHJKMNPQRSTVWXYZ0") (some " Living room ") (some "tvos"),
    .statement 0 "" false, .statement 0 "ABCD2345" false,
    .claim ⟨"plex:2", "Ada", .user, .plex, none⟩ (some "abcd-2345"),
    .statement 0 "" false, .statement 0 "" false, .clock 1767225660,
    .poll (some "ABCD2345") (some "01HABCDEFGHJKMNPQRSTVWXYZ0"),
    .poll (some "ABCD2345") (some "01HABCDEFGHJKMNPQRSTVWXYZ0"),
    -- both read the row, and the second consumes it
    .statement 0 "" false, .statement 0 "" false, .statement 0 "" false, .statement 0 "" false,
    .statement 0 "5d2f0d51-6d7c-4b5e-9b0a-2f3c4d5e6f70" false, .clock mintedAt,
    .statement 0 "01HWXYZ01234567890ABCDEFGH" false]

theorem paired_of_runs_livingRoom : ∃ s,
    Runs (step livingRoomServer) Fresh (start .empty none 1767225600) s ∧
    mints "ABCD2345" s.log = 1 ∧ s.requests.length = 0 ∧
    Paired Minted.polledAt .empty s := by
  have h : ∃ s, exec (guarded (step livingRoomServer) Fresh) (start .empty none 1767225600)
      (livingRoom 1767225660) = some s ∧ mints "ABCD2345" s.log = 1 ∧ s.requests.length = 0 :=
    ⟨_, rfl, rfl, rfl⟩
  obtain ⟨s, hs, hminted, hover⟩ := h
  have hruns := runs_of_exec_guarded hs
  exact ⟨s, hruns, hminted, hover, paired_of_runs .empty none 1767225600 hruns⟩

/-- **A token may be minted after its code expired**, in answer to a poll that began before. -/
theorem not_paired_late : ∃ s,
    Runs (step livingRoomServer) Fresh (start .empty none 1767225600) s ∧
    ¬ Paired Minted.mintedAt .empty s := by
  have h : ∃ s, exec (guarded (step livingRoomServer) Fresh) (start .empty none 1767225600)
      (livingRoom 1767226201) = some s ∧
      s.log = [.minted ⟨"ABCD2345", "01HABCDEFGHJKMNPQRSTVWXYZ0", "plex:2",
          "01HWXYZ01234567890ABCDEFGH", 1767225660, 1767226201⟩, .claimed "ABCD2345" "plex:2",
        .started "ABCD2345" "01HABCDEFGHJKMNPQRSTVWXYZ0" 1767226200] := ⟨_, rfl, rfl⟩
  obtain ⟨s, hs, hlog⟩ := h
  refine ⟨s, runs_of_exec_guarded hs, fun hpaired => ?_⟩
  obtain ⟨-, expiresAt, hstarted, hle⟩ := hpaired.token _ (hlog ▸ List.mem_cons_self)
  simp only [hlog, List.mem_cons, LinkEvent.started.injEq, reduceCtorEq, List.not_mem_nil,
    or_false, false_or] at hstarted
  obtain ⟨-, -, rfl⟩ := hstarted
  exact absurd hle (by decide)

end Pairing

end EmeraldExchange.Auth
