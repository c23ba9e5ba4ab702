import EmeraldExchange.Auth.Household

/-!
# A revoked member's invites stay dead

Revoking a member revokes their invites in the same transaction, and redeeming asks whether the
issuer is revoked. Between them, an invite that a member issued before being revoked is not redeemed
any more, even when the member is let in again
(`Household.dead_of_runs`) – in every run in which no invite is inserted whose
issuer was revoked since the call that issues it began.

The insertion itself does not ask. A call that waits while its issuer is revoked inserts an invite
that the revocation has not seen, and that is good again once the issuer is
(`Household.not_dead_inFlight`).
-/

namespace EmeraldExchange.Auth

namespace Household

variable {hashCode : String → String} {config : Config} {s t : Household}

/-! ### What a revocation is to mean -/

/-- **The requests are let in**: the admin routes take administrators, and an issue is by someone
who was let in. -/
def LetIn (config : Config) (s : Household) : Act → Prop
  | .letIn sub => memberStatus s.db config.adminSubs sub = .allowed ∧
      effectiveRole s.db config.adminSubs sub = .admin
  | .issue adminSub _ _ _ => adminSub ∈ s.admitted
  | _ => True

/-- **Nothing comes too late**: no invite is inserted whose issuer was revoked since the call that
issues it began. -/
def InTime (s : Household) : Act → Prop
  | .insertIssued n _ => ∀ p ∈ s.issuing[n]?,
      ¬ [.revoked p.adminSub, .issued p.call p.hash p.adminSub].Sublist s.log
  | _ => True

instance (config : Config) (s : Household) : ∀ a, Decidable (LetIn config s a)
  | .letIn _ => inferInstanceAs (Decidable (_ ∧ _))
  | .issue _ _ _ _ => inferInstanceAs (Decidable (_ ∈ _))
  | .insertIssued _ _ => inferInstanceAs (Decidable True)
  | .redeem _ _ _ _ _ _ => inferInstanceAs (Decidable True)
  | .selectInvite _ => inferInstanceAs (Decidable True)
  | .revokeInvite _ _ => inferInstanceAs (Decidable True)
  | .revokeSafely _ _ _ _ => inferInstanceAs (Decidable True)
  | .revokeSelf _ _ _ => inferInstanceAs (Decidable True)

instance (s : Household) : ∀ a, Decidable (InTime s a)
  | .insertIssued n _ => inferInstanceAs (Decidable (∀ p ∈ s.issuing[n]?, _))
  | .letIn _ => inferInstanceAs (Decidable True)
  | .issue _ _ _ _ => inferInstanceAs (Decidable True)
  | .redeem _ _ _ _ _ _ => inferInstanceAs (Decidable True)
  | .selectInvite _ => inferInstanceAs (Decidable True)
  | .revokeInvite _ _ => inferInstanceAs (Decidable True)
  | .revokeSafely _ _ _ _ => inferInstanceAs (Decidable True)
  | .revokeSelf _ _ _ => inferInstanceAs (Decidable True)

/-- **What a revocation is to mean.** -/
structure Dead (hashCode : String → String) (config : Config) (s : Household) : Prop where
  /-- No invite is redeemed after its issuer was revoked after issuing it. -/
  cascade : ∀ call code issuer sub, .inserted call ∈ s.log →
    ¬ [.redeemed code sub, .revoked issuer, .issued call (hashCode code) issuer].Sublist s.log
  /-- No invite admits anyone while its issuer is revoked. -/
  admits : ∀ code sub now displayName authMode fault,
    (Auth.redeem s.db (hashCode code) sub now displayName authMode fault).1 = .ok .created →
    ∃ i, s.db.invites.lookup (hashCode code) = some i ∧ memberRevoked s.db i.issuedBy = false
  /-- Who was revoked comes back only by an invite of someone else, who is a member or listed. -/
  readmits : ∀ a t sub, s.step hashCode config a = some t → memberRevoked s.db sub = true →
    (activeRow t.db sub).isSome → ∃ code now displayName authMode i,
      a = .redeem code sub now displayName authMode false ∧
      s.db.invites.lookup (hashCode code) = some i ∧ i.issuedBy ≠ sub ∧
      ((activeRow s.db i.issuedBy).isSome ∨ i.issuedBy ∈ config.adminSubs)

/-- Whether a subject has a row or is listed. -/
def Known (config : Config) (db : Db) (sub : String) : Prop :=
  (db.members.lookup sub).isSome ∨ sub ∈ config.adminSubs

/-- **What a household keeps**: call numbers are given once; an invite that was inserted is by the
issuer of its call, who is known; and if that issuer was revoked since, the invite is revoked. -/
structure Kept (hashCode : String → String) (config : Config) (s : Household) : Prop where
  calls : ∀ call hash issuer, .issued call hash issuer ∈ s.log → call < s.calls
  inserted : ∀ call, .inserted call ∈ s.log → call < s.calls
  unique : ∀ call hash issuer hash' issuer', .issued call hash issuer ∈ s.log →
    .issued call hash' issuer' ∈ s.log → hash = hash' ∧ issuer = issuer'
  issuing : ∀ p ∈ s.issuing, .issued p.call p.hash p.adminSub ∈ s.log
  row : ∀ call hash issuer, .inserted call ∈ s.log → .issued call hash issuer ∈ s.log →
    ∃ i, s.db.invites.lookup hash = some i ∧ i.issuedBy = issuer
  revoked : ∀ call hash issuer, .inserted call ∈ s.log →
    [.revoked issuer, .issued call hash issuer].Sublist s.log →
    ∃ i, s.db.invites.lookup hash = some i ∧ i.revokedAt.isSome
  admitted : ∀ sub ∈ s.admitted, Known config s.db sub
  issuer : ∀ p ∈ s.issuing, Known config s.db p.adminSub
  invites : ∀ hash i, s.db.invites.lookup hash = some i → Known config s.db i.issuedBy
  dead : ∀ call code issuer sub, .inserted call ∈ s.log →
    ¬ [.redeemed code sub, .revoked issuer, .issued call (hashCode code) issuer].Sublist s.log

theorem kept_start (db : Db) : Kept hashCode config (start db) := by
  constructor <;> simp [start, idle]

/-! ### What a step leaves of what was there -/

theorem issuing_of_step {a : Act} (h : s.step hashCode config a = some t) :
    t.calls = s.calls ∧ (∀ p ∈ t.issuing, p ∈ s.issuing) ∧
      (∀ call hash issuer, .issued call hash issuer ∈ t.log →
        .issued call hash issuer ∈ s.log) ∨
    ∃ p, t.calls = s.calls + 1 ∧ t.issuing = s.issuing ++ [p] ∧ p.call = s.calls ∧
      t.log = .issued p.call p.hash p.adminSub :: s.log ∧
      ∃ code now opts, a = .issue p.adminSub code now opts := by
  rcases a with sub | ⟨adminSub, code, now, opts⟩ | ⟨n, fault⟩ | ⟨⟩ | ⟨⟩ | ⟨n, now⟩ | ⟨⟩ | ⟨⟩
  case issue =>
    simp only [step] at h
    split at h
    · obtain rfl := Option.some.inj h
      exact Or.inl ⟨rfl, fun _ hp => hp, fun _ _ _ hmem => hmem⟩
    · obtain rfl := Option.some.inj h
      exact Or.inr ⟨⟨s.calls, hashCode code, adminSub, now, opts⟩, rfl, rfl, rfl, rfl, code, now,
        opts, rfl⟩
  case insertIssued =>
    obtain ⟨p, -, rfl⟩ := Option.map_eq_some_iff.mp h
    refine Or.inl ⟨rfl, fun _ hp => List.mem_of_mem_eraseIdx hp, fun call hash issuer hmem => ?_⟩
    dsimp only at hmem
    split at hmem
    · simpa using hmem
    · exact hmem
  case revokeInvite =>
    obtain ⟨hash, -, rfl⟩ := Option.map_eq_some_iff.mp h
    exact Or.inl ⟨rfl, fun _ hp => hp, fun _ _ _ hmem => hmem⟩
  case letIn | selectInvite =>
    obtain rfl := Option.some.inj h
    exact Or.inl ⟨rfl, fun _ hp => hp, fun _ _ _ hmem => hmem⟩
  all_goals
    obtain rfl := Option.some.inj h
    refine Or.inl ⟨rfl, fun _ hp => hp, fun call hash issuer hmem => ?_⟩
    dsimp only at hmem
    split at hmem
    · simpa using hmem
    · exact hmem

theorem admitted_of_step {a : Act} (h : s.step hashCode config a = some t) {sub : String}
    (hsub : sub ∈ t.admitted) : sub ∈ s.admitted ∨ a = .letIn sub := by
  rcases a with sub' | ⟨adminSub, code, now, opts⟩ | ⟨n, fault⟩ | ⟨⟩ | ⟨⟩ | ⟨n, now⟩ | ⟨⟩ | ⟨⟩
  case letIn =>
    obtain rfl := Option.some.inj h
    rcases List.mem_cons.mp hsub with rfl | hsub
    · exact Or.inr rfl
    · exact Or.inl hsub
  case issue =>
    simp only [step] at h
    split at h <;> (obtain rfl := Option.some.inj h; exact Or.inl hsub)
  case insertIssued =>
    obtain ⟨p, -, rfl⟩ := Option.map_eq_some_iff.mp h
    exact Or.inl hsub
  case revokeInvite =>
    obtain ⟨hash, -, rfl⟩ := Option.map_eq_some_iff.mp h
    exact Or.inl hsub
  all_goals
    obtain rfl := Option.some.inj h
    exact Or.inl hsub

theorem Known.step (hwrites : Writes hashCode config s t) {sub : String}
    (h : Known config s.db sub) : Known config t.db sub := by
  refine h.imp_left fun hrow => ?_
  rcases hwrites with ⟨hdb, -⟩ | ⟨p, -, hdb, -⟩ | ⟨p, -, -, hdb, -⟩ |
    ⟨code, sub', now, displayName, authMode, i, hi, hdb, -⟩ | ⟨hash, now, hdb, -⟩ |
    ⟨sub', now, -, -, hdb, -⟩
  · exact hdb ▸ hrow
  · exact hdb ▸ hrow
  · exact hdb ▸ hrow
  · rw [hdb]
    rcases eq_or_ne sub sub' with rfl | hne
    · show (AList.lookup _ (AList.insert _ _ _)).isSome
      simp
    · exact (AList.lookup_insert_ne hne).symm ▸ hrow
  · exact hdb ▸ hrow
  · rw [hdb]
    show ((revokeRow s.db sub' now).members.lookup sub).isSome
    rw [lookup_revokeRow]
    split
    · simpa using hrow
    · exact hrow

/-- **No invite is lost**, its issuer does not change, and once revoked it stays so. -/
theorem invite_kept (hwrites : Writes hashCode config s t) {hash : String} {i : Invite}
    (h : s.db.invites.lookup hash = some i) : ∃ i', t.db.invites.lookup hash = some i' ∧
      i'.issuedBy = i.issuedBy ∧ (i.revokedAt.isSome → i'.revokedAt.isSome) := by
  rcases hwrites with ⟨hdb, -⟩ | ⟨p, -, hdb, -⟩ | ⟨p, hnone, -, hdb, -⟩ |
    ⟨code, sub, now, displayName, authMode, i', hi, hdb, -⟩ | ⟨hash', now, hdb, -⟩ |
    ⟨sub, now, -, -, hdb, -⟩
  · exact ⟨i, hdb ▸ h, rfl, id⟩
  · exact ⟨i, hdb ▸ h, rfl, id⟩
  · have hne : hash ≠ p.hash := by
      rintro rfl
      exact absurd h (by simp [hnone])
    exact ⟨i, hdb ▸ (AList.lookup_insert_ne hne).trans h, rfl, id⟩
  · refine ⟨_, by rw [hdb, redeemed, Table.lookup_modify, h, Option.map_some], ?_, ?_⟩ <;>
      split <;> simp
  · refine ⟨_, by rw [hdb, lookup_revokeInvite, h, Option.map_some], ?_, ?_⟩ <;>
      split <;> simp
  · refine ⟨_, by rw [hdb, lookup_revokedMember, h, Option.map_some], ?_, ?_⟩ <;>
      split <;> simp

/-- **No invite comes from nowhere**: it was there, or is inserted for a call. -/
theorem invite_of_step (hwrites : Writes hashCode config s t) {hash : String} {i' : Invite}
    (h : t.db.invites.lookup hash = some i') :
    (∃ i, s.db.invites.lookup hash = some i ∧ i'.issuedBy = i.issuedBy) ∨
      ∃ p ∈ s.issuing, i'.issuedBy = p.adminSub := by
  rcases hwrites with ⟨hdb, -⟩ | ⟨p, -, hdb, -⟩ | ⟨p, -, hmem, hdb, -⟩ |
    ⟨code, sub, now, displayName, authMode, i, hi, hdb, -⟩ | ⟨hash', now, hdb, -⟩ |
    ⟨sub, now, -, -, hdb, -⟩
  · exact Or.inl ⟨i', hdb ▸ h, rfl⟩
  · exact Or.inl ⟨i', hdb ▸ h, rfl⟩
  · rw [hdb] at h
    rcases Table.lookup_insert_cases h with ⟨-, rfl⟩ | ⟨-, h⟩
    · exact Or.inr ⟨p, hmem, rfl⟩
    · exact Or.inl ⟨i', h, rfl⟩
  · rw [hdb, redeemed, Table.lookup_modify] at h
    obtain ⟨i₀, hi₀, rfl⟩ := Option.map_eq_some_iff.mp h
    exact Or.inl ⟨i₀, hi₀, by split <;> rfl⟩
  · rw [hdb, lookup_revokeInvite] at h
    obtain ⟨i₀, hi₀, rfl⟩ := Option.map_eq_some_iff.mp h
    exact Or.inl ⟨i₀, hi₀, by split <;> rfl⟩
  · rw [hdb, lookup_revokedMember] at h
    obtain ⟨i₀, hi₀, rfl⟩ := Option.map_eq_some_iff.mp h
    exact Or.inl ⟨i₀, hi₀, by split <;> rfl⟩

/-! ### Every step in time keeps the invites dead -/

theorem log_of_step (hwrites : Writes hashCode config s t) :
    t.log = s.log ∨ ∃ e, t.log = e :: s.log := by
  rcases hwrites with ⟨-, hlog⟩ | ⟨p, -, -, hlog⟩ | ⟨p, -, -, -, hlog⟩ |
    ⟨_, _, _, _, _, _, -, -, hlog⟩ | ⟨_, _, -, hlog⟩ | ⟨_, _, -, -, -, hlog⟩
  · exact Or.inl hlog
  · exact Or.inr ⟨_, hlog⟩
  · exact Or.inr ⟨_, hlog⟩
  · exact Or.inr ⟨_, hlog⟩
  · exact Or.inl hlog
  · exact Or.inr ⟨_, hlog⟩

theorem mem_log_of_step (hwrites : Writes hashCode config s t) {e : Event} (h : e ∈ s.log) :
    e ∈ t.log := by
  rcases log_of_step hwrites with hlog | ⟨e', hlog⟩
  · rwa [hlog]
  · rw [hlog]
    exact List.mem_cons_of_mem _ h

/-- **Calls keep their numbers.** -/
theorem Kept.step_calls (h : Kept hashCode config s) {a : Act}
    (hstep : s.step hashCode config a = some t) :
    (∀ call hash issuer, .issued call hash issuer ∈ t.log → call < t.calls) ∧
    (∀ call hash issuer hash' issuer', .issued call hash issuer ∈ t.log →
      .issued call hash' issuer' ∈ t.log → hash = hash' ∧ issuer = issuer') ∧
    ∀ p ∈ t.issuing, .issued p.call p.hash p.adminSub ∈ t.log := by
  have hwrites := writes_of_step hstep
  rcases issuing_of_step hstep with ⟨hcalls, hissuing, hissued⟩ |
    ⟨p, hcalls, hissuing, hcall, hlog, -⟩
  · refine ⟨fun call hash issuer hmem => ?_, fun call hash issuer hash' issuer' hmem hmem' => ?_,
      fun p hp => mem_log_of_step hwrites (h.issuing p (hissuing p hp))⟩
    · rw [hcalls]
      exact h.calls _ _ _ (hissued _ _ _ hmem)
    · exact h.unique _ _ _ _ _ (hissued _ _ _ hmem) (hissued _ _ _ hmem')
  · -- the new call has a number that no other has
    have hcases : ∀ call hash issuer, .issued call hash issuer ∈ t.log →
        call = s.calls ∧ hash = p.hash ∧ issuer = p.adminSub ∨
          call < s.calls ∧ .issued call hash issuer ∈ s.log := by
      rintro call hash issuer hmem
      rw [hlog, List.mem_cons] at hmem
      rcases hmem with heq | hmem
      · obtain ⟨rfl, rfl, rfl⟩ := Event.issued.inj heq
        exact Or.inl ⟨hcall, rfl, rfl⟩
      · exact Or.inr ⟨h.calls _ _ _ hmem, hmem⟩
    refine ⟨fun call hash issuer hmem => ?_, fun call hash issuer hash' issuer' hmem hmem' => ?_,
      fun p' hp => ?_⟩
    · rcases hcases _ _ _ hmem with ⟨rfl, -, -⟩ | ⟨hlt, -⟩ <;> omega
    · rcases hcases _ _ _ hmem with ⟨rfl, rfl, rfl⟩ | ⟨hlt, hmem⟩ <;>
        rcases hcases _ _ _ hmem' with ⟨heq, rfl, rfl⟩ | ⟨hlt', hmem'⟩
      · exact ⟨rfl, rfl⟩
      · exact absurd hlt' (lt_irrefl _)
      · omega
      · exact h.unique _ _ _ _ _ hmem hmem'
    · rw [hissuing, List.mem_append, List.mem_singleton] at hp
      rcases hp with hp | rfl
      · exact mem_log_of_step hwrites (h.issuing p' hp)
      · rw [hlog]
        exact List.mem_cons_self

/-- **Everyone who issues is known.** -/
theorem Kept.step_known (h : Kept hashCode config s) {a : Act} (hlet : LetIn config s a)
    (hstep : s.step hashCode config a = some t) :
    (∀ sub ∈ t.admitted, Known config t.db sub) ∧
    (∀ p ∈ t.issuing, Known config t.db p.adminSub) ∧
    ∀ hash i, t.db.invites.lookup hash = some i → Known config t.db i.issuedBy := by
  have hwrites := writes_of_step hstep
  refine ⟨fun sub hsub => ?_, fun p hp => ?_, fun hash i hi => ?_⟩
  · rcases admitted_of_step hstep hsub with hsub | rfl
    · exact (h.admitted sub hsub).step hwrites
    · -- an administrator is listed or has a row
      refine Known.step hwrites ?_
      have hrole := hlet.2
      by_cases hlisted : sub ∈ config.adminSubs
      · exact Or.inr hlisted
      · left
        by_contra hrow
        have hnone : s.db.members.lookup sub = none := by simpa using hrow
        simp [effectiveRole, hlisted, isMember, activeRow, hnone] at hrole
  · rcases issuing_of_step hstep with ⟨-, hissuing, -⟩ | ⟨p', -, hissuing, -, -, _, _, _, rfl⟩
    · exact (h.issuer p (hissuing p hp)).step hwrites
    · rw [hissuing, List.mem_append, List.mem_singleton] at hp
      rcases hp with hp | rfl
      · exact (h.issuer p hp).step hwrites
      · exact (h.admitted _ hlet).step hwrites
  · rcases invite_of_step hwrites hi with ⟨i', hi', hby⟩ | ⟨p, hp, hby⟩
    · exact hby ▸ (h.invites hash i' hi').step hwrites
    · exact hby ▸ (h.issuer p hp).step hwrites

theorem sublist_cons_cases {e : Event} {es log : List Event} {a : Event}
    (h : (a :: es).Sublist (e :: log)) : (a :: es).Sublist log ∨ a = e ∧ es.Sublist log := by
  rcases List.sublist_cons_iff.mp h with h | ⟨es', heq, h⟩
  · exact Or.inl h
  · obtain ⟨rfl, rfl⟩ := List.cons.inj heq
    exact Or.inr ⟨rfl, h⟩

/-- **An insertion is of a call under way**, and leaves its row. -/
theorem inserted_of_step {a : Act} (hstep : s.step hashCode config a = some t) {call : ℕ}
    (h : .inserted call ∈ t.log) : .inserted call ∈ s.log ∨
      ∃ n fault p, a = .insertIssued n fault ∧ s.issuing[n]? = some p ∧ p.call = call ∧
        t.db.invites.lookup p.hash = some p.row := by
  rcases a with sub | ⟨adminSub, code, now, opts⟩ | ⟨n, fault⟩ | ⟨⟩ | ⟨⟩ | ⟨n, now⟩ | ⟨⟩ | ⟨⟩
  case insertIssued =>
    obtain ⟨p, hp, rfl⟩ := Option.map_eq_some_iff.mp hstep
    rcases insertInvite_cases s.db p.hash p.row fault with heq | ⟨heq, -⟩
    · exact Or.inl (by simpa [heq] using h)
    · simp only [heq, if_true, List.mem_cons] at h
      rcases h with hcall | h
      · exact Or.inr ⟨n, fault, p, rfl, hp, (Event.inserted.inj hcall).symm,
          by simp only [heq]; exact AList.lookup_insert _⟩
      · exact Or.inl h
  case issue =>
    simp only [step] at hstep
    split at hstep <;> (obtain rfl := Option.some.inj hstep; exact Or.inl (by simpa using h))
  case revokeInvite =>
    obtain ⟨hash, -, rfl⟩ := Option.map_eq_some_iff.mp hstep
    exact Or.inl h
  case letIn | selectInvite =>
    obtain rfl := Option.some.inj hstep
    exact Or.inl h
  all_goals
    obtain rfl := Option.some.inj hstep
    dsimp only at h
    split at h
    · exact Or.inl (by simpa using h)
    · exact Or.inl h

theorem revoked_of_log (hwrites : Writes hashCode config s t) {sub : String}
    (h : t.log = .revoked sub :: s.log) : ∃ now, t.db = revokedMember s.db sub now := by
  rcases hwrites with ⟨-, hlog⟩ | ⟨p, -, -, hlog⟩ | ⟨p, -, -, -, hlog⟩ |
    ⟨_, _, _, _, _, _, -, -, hlog⟩ | ⟨_, _, -, hlog⟩ | ⟨sub', now, -, -, hdb, hlog⟩
  · exact absurd (hlog.symm.trans h) (List.cons_ne_self _ _).symm
  · exact absurd (List.cons.inj (hlog.symm.trans h)).1 (by simp)
  · exact absurd (List.cons.inj (hlog.symm.trans h)).1 (by simp)
  · exact absurd (List.cons.inj (hlog.symm.trans h)).1 (by simp)
  · exact absurd (hlog.symm.trans h) (List.cons_ne_self _ _).symm
  · obtain rfl := Event.revoked.inj (List.cons.inj (hlog.symm.trans h)).1
    exact ⟨now, hdb⟩

theorem redeemed_of_log (hwrites : Writes hashCode config s t) {code sub : String}
    (h : t.log = .redeemed code sub :: s.log) :
    ∃ i, s.db.invites.lookup (hashCode code) = some i ∧ i.revokedAt = none := by
  rcases hwrites with ⟨-, hlog⟩ | ⟨p, -, -, hlog⟩ | ⟨p, -, -, -, hlog⟩ |
    ⟨code', sub', _, _, _, i, hi, -, hlog⟩ | ⟨_, _, -, hlog⟩ | ⟨_, _, -, -, -, hlog⟩
  · exact absurd (hlog.symm.trans h) (List.cons_ne_self _ _).symm
  · exact absurd (List.cons.inj (hlog.symm.trans h)).1 (by simp)
  · exact absurd (List.cons.inj (hlog.symm.trans h)).1 (by simp)
  · obtain ⟨rfl, -⟩ := Event.redeemed.inj (List.cons.inj (hlog.symm.trans h)).1
    exact ⟨i, hi.invite, hi.unrevoked⟩
  · exact absurd (hlog.symm.trans h) (List.cons_ne_self _ _).symm
  · exact absurd (List.cons.inj (hlog.symm.trans h)).1 (by simp)

/-- **In time, no revocation lies between a call and its insertion**: where the log has one, the
invite was there before. -/
theorem Kept.inserted_of_revoked (h : Kept hashCode config s) {a : Act} (hin : InTime s a)
    (hstep : s.step hashCode config a = some t) {call : ℕ} {hash issuer : String}
    (hinserted : .inserted call ∈ t.log)
    (hrevoked : [.revoked issuer, .issued call hash issuer].Sublist s.log) :
    .inserted call ∈ s.log := by
  rcases inserted_of_step hstep hinserted with hold | ⟨n, fault, p, rfl, hp, rfl, -⟩
  · exact hold
  · have hissued : .issued p.call hash issuer ∈ s.log := hrevoked.subset (by simp)
    obtain ⟨rfl, rfl⟩ :=
      h.unique _ _ _ _ _ hissued (h.issuing p (List.mem_of_getElem? hp))
    exact absurd hrevoked (hin p hp)

/-- **Every step in time keeps the invariant.** -/
theorem Kept.step (h : Kept hashCode config s) {a : Act} (hlet : LetIn config s a)
    (hin : InTime s a) (hstep : s.step hashCode config a = some t) : Kept hashCode config t := by
  have hwrites := writes_of_step hstep
  obtain ⟨hcalls, hunique, hissuing⟩ := h.step_calls hstep
  obtain ⟨hadmitted, hissuer, hinvites⟩ := h.step_known hlet hstep
  have hlt : s.calls ≤ t.calls := by
    rcases issuing_of_step hstep with ⟨heq, -⟩ | ⟨p, heq, -⟩ <;> omega
  -- an invite that was inserted and is by the issuer of its call
  have hrow : ∀ call hash issuer, .inserted call ∈ t.log → .issued call hash issuer ∈ t.log →
      ∃ i, t.db.invites.lookup hash = some i ∧ i.issuedBy = issuer := by
    intro call hash issuer hinserted hissued
    have hissued' : .issued call hash issuer ∈ s.log := by
      rcases issuing_of_step hstep with ⟨-, -, hold⟩ | ⟨p, -, -, hcall, hlog, -⟩
      · exact hold _ _ _ hissued
      · rw [hlog, List.mem_cons] at hissued hinserted
        rcases hissued with heq | hissued
        · -- a call that begins has inserted nothing
          obtain ⟨rfl, -, -⟩ := Event.issued.inj heq
          have hold := h.inserted _ (hinserted.resolve_left (by simp))
          omega
        · exact hissued
    rcases inserted_of_step hstep hinserted with hold | ⟨n, fault, p, -, hp, rfl, hlookup⟩
    · obtain ⟨i, hi, hby⟩ := h.row call hash issuer hold hissued'
      obtain ⟨i', hi', hby', -⟩ := invite_kept hwrites hi
      exact ⟨i', hi', hby'.trans hby⟩
    · obtain ⟨rfl, rfl⟩ :=
        h.unique _ _ _ _ _ hissued' (h.issuing p (List.mem_of_getElem? hp))
      exact ⟨p.row, hlookup, rfl⟩
  refine ⟨hcalls, ?_, hunique, hissuing, hrow, ?_, hadmitted, hissuer, hinvites, ?_⟩
  · intro call hinserted
    rcases inserted_of_step hstep hinserted with hold | ⟨n, fault, p, -, hp, rfl, -⟩
    · exact Nat.lt_of_lt_of_le (h.inserted call hold) hlt
    · exact Nat.lt_of_lt_of_le (h.calls _ _ _ (h.issuing p (List.mem_of_getElem? hp))) hlt
  · intro call hash issuer hinserted hrevoked
    have hcases : [.revoked issuer, .issued call hash issuer].Sublist s.log ∨
        t.log = .revoked issuer :: s.log ∧ .issued call hash issuer ∈ s.log := by
      rcases log_of_step hwrites with hlog | ⟨e, hlog⟩
      · exact Or.inl (hlog ▸ hrevoked)
      · rcases sublist_cons_cases (hlog ▸ hrevoked) with hold | ⟨rfl, hissued⟩
        · exact Or.inl hold
        · exact Or.inr ⟨hlog, List.singleton_sublist.mp hissued⟩
    rcases hcases with hold | ⟨hlog, hissued⟩
    · obtain ⟨i, hi, hsome⟩ :=
        h.revoked call hash issuer (h.inserted_of_revoked hin hstep hinserted hold) hold
      obtain ⟨i', hi', -, hkept⟩ := invite_kept hwrites hi
      exact ⟨i', hi', hkept hsome⟩
    · -- the revocation reaches every invite of the member
      obtain ⟨now, hdb⟩ := revoked_of_log hwrites hlog
      have hinserted' : .inserted call ∈ s.log := by simpa [hlog] using hinserted
      obtain ⟨i, hi, hby⟩ := h.row call hash issuer hinserted' hissued
      refine ⟨_, by rw [hdb, lookup_revokedMember, hi, Option.map_some], ?_⟩
      by_cases hnone : i.revokedAt = none
      · simp [hby, hnone]
      · simpa [hnone] using Option.isSome_iff_ne_none.mpr hnone
  · intro call code issuer sub hinserted hdead
    rcases log_of_step hwrites with hlog | ⟨e, hlog⟩
    · rw [hlog] at hdead
      exact h.dead call code issuer sub
        (h.inserted_of_revoked hin hstep hinserted (List.sublist_of_cons_sublist hdead)) hdead
    · rcases sublist_cons_cases (hlog ▸ hdead) with hold | ⟨rfl, hrevoked⟩
      · exact h.dead call code issuer sub
          (h.inserted_of_revoked hin hstep hinserted (List.sublist_of_cons_sublist hold)) hold
      · -- the invite that is redeemed now is not revoked
        obtain ⟨i, hi, hnone⟩ := redeemed_of_log hwrites hlog
        obtain ⟨i', hi', hsome⟩ := h.revoked call (hashCode code) issuer
          (h.inserted_of_revoked hin hstep hinserted hrevoked) hrevoked
        obtain rfl := Option.some.inj (hi.symm.trans hi')
        exact absurd hsome (by simp [hnone])

/-! ### The result -/

theorem memberRevoked_eq_false_of_activeRow {db : Db} {sub : String} {m : Member}
    (h : activeRow db sub = some m) : memberRevoked db sub = false := by
  obtain ⟨hlookup, hactive⟩ := activeRow_eq_some.mp h
  simp [memberRevoked, hlookup, hactive]

theorem Known.active {db : Db} {sub : String} (h : Known config db sub)
    (hrevoked : memberRevoked db sub = false) :
    (activeRow db sub).isSome ∨ sub ∈ config.adminSubs := by
  refine h.imp_left fun hrow => ?_
  obtain ⟨m, hm⟩ := Option.isSome_iff_exists.mp hrow
  have hactive : m.revokedAt = none := by simpa [memberRevoked, hm] using hrevoked
  exact Option.isSome_iff_exists.mpr ⟨m, activeRow_eq_some.mpr ⟨hm, hactive⟩⟩

/-- **Only redeeming makes a revoked member active.** -/
theorem redeem_of_readmitted {a : Act} (hstep : s.step hashCode config a = some t) {sub : String}
    (hrevoked : memberRevoked s.db sub = true) (hactive : (activeRow t.db sub).isSome) :
    ∃ code now displayName authMode i, a = .redeem code sub now displayName authMode false ∧
      Redeemable s.db (hashCode code) sub now i := by
  -- what leaves the active rows as they are does not do it
  have habsurd : ∀ db, activeRow db sub = activeRow s.db sub → t.db = db → False := by
    rintro db hsame rfl
    obtain ⟨m, hm⟩ := Option.isSome_iff_exists.mp hactive
    rw [memberRevoked_eq_false_of_activeRow (hsame.symm.trans hm)] at hrevoked
    exact absurd hrevoked (by simp)
  have hrevokedMember : ∀ sub' now, t.db = revokedMember s.db sub' now → False := by
    intro sub' now hdb
    rcases eq_or_ne sub sub' with rfl | hne
    · obtain ⟨m, hm⟩ := Option.isSome_iff_exists.mp hactive
      rw [hdb] at hm
      replace hm : activeRow (revokeRow s.db sub now) sub = some m := hm
      have hm' := activeRow_of_revokeRow hm
      rw [memberRevoked_eq_false_of_activeRow hm'] at hrevoked
      exact absurd hrevoked (by simp)
    · exact habsurd _ (activeRow_revokedMember_of_ne s.db hne) hdb
  rcases a with sub' | ⟨adminSub, code, now, opts⟩ | ⟨n, fault⟩ |
    ⟨code, sub', now, displayName, authMode, fault⟩ | p | ⟨n, now⟩ | ⟨target, actor, now, fault⟩ |
    ⟨sub', now, fault⟩
  case redeem =>
    obtain rfl := Option.some.inj hstep
    rcases redeem_cases s.db (hashCode code) sub' now displayName authMode fault with
      ⟨-, hdb⟩ | ⟨i, hi, heq⟩
    · exact (habsurd s.db rfl hdb).elim
    · rcases eq_or_ne sub sub' with rfl | hne
      · refine ⟨code, now, displayName, authMode, i, ?_, hi⟩
        rcases fault with _ | _
        · rfl
        · -- a failing statement drops the transaction
          simp [Auth.redeem, transaction, hi.valid] at heq
      · refine (habsurd _ ?_ (congrArg Prod.snd heq)).elim
        simp only [activeRow, redeemed, AList.lookup_insert_ne hne]
  case revokeSafely =>
    obtain rfl := Option.some.inj hstep
    rcases revokeSafely_cases s.db config.adminSubs target actor now fault with
      ⟨-, hdb⟩ | ⟨heq, -⟩
    · exact (habsurd s.db rfl hdb).elim
    · exact (hrevokedMember target now (congrArg Prod.snd heq)).elim
  case revokeSelf =>
    obtain rfl := Option.some.inj hstep
    rcases revokeSelf_cases s.db config.adminSubs sub' now fault with ⟨-, hdb⟩ | ⟨heq, -⟩
    · exact (habsurd s.db rfl hdb).elim
    · exact (hrevokedMember sub' now (congrArg Prod.snd heq)).elim
  case insertIssued =>
    obtain ⟨p, -, rfl⟩ := Option.map_eq_some_iff.mp hstep
    rcases insertInvite_cases s.db p.hash p.row fault with heq | ⟨heq, -⟩
    · exact (habsurd s.db rfl (congrArg Prod.snd heq)).elim
    · refine (habsurd _ ?_ (congrArg Prod.snd heq)).elim
      rfl
  case issue =>
    simp only [step] at hstep
    split at hstep <;>
      (obtain rfl := Option.some.inj hstep; exact (habsurd s.db rfl rfl).elim)
  case revokeInvite =>
    obtain ⟨hash, -, rfl⟩ := Option.map_eq_some_iff.mp hstep
    refine (habsurd (Auth.revokeInvite s.db hash now) ?_ rfl).elim
    rfl
  case letIn | selectInvite =>
    obtain rfl := Option.some.inj hstep
    exact (habsurd s.db rfl rfl).elim

/-- **A revoked member's invites stay dead**: in every run in which no invite is inserted whose
issuer was revoked since the call that issues it began. -/
theorem dead_of_runs (db : Db)
    (h : Runs (step hashCode config) (fun v a => LetIn config v a ∧ InTime v a) (start db) s) :
    Dead hashCode config s := by
  have hkept : Kept hashCode config s := h.invariant (kept_start db)
    fun _ _ _ hv hguard hstep => hv.step hguard.1 hguard.2 hstep
  refine ⟨hkept.dead, fun code sub now displayName authMode fault hcreated => ?_,
    fun a t sub hstep hrevoked hactive => ?_⟩
  · rcases redeem_cases s.db (hashCode code) sub now displayName authMode fault with
      ⟨hno, -⟩ | ⟨i, hi, -⟩
    · exact absurd hcreated hno
    · exact ⟨i, hi.invite, hi.issuer⟩
  · obtain ⟨code, now, displayName, authMode, i, rfl, hi⟩ :=
      redeem_of_readmitted hstep hrevoked hactive
    refine ⟨code, now, displayName, authMode, i, rfl, hi.invite, ?_,
      (hkept.invites _ i hi.invite).active hi.issuer⟩
    rintro rfl
    exact absurd hi.issuer (by simp [hrevoked])

/-- An administrator issues an invite and is revoked, before or after the row is inserted; comes
back by an invite of the owner's; and someone else tries the first one. -/
def readmission (late : Bool) : List Act :=
  [.letIn "plex:1", .issue "plex:1" firstCode "2026-01-01T00:00:00.000Z" (forTwo .admin),
    .insertIssued 0 false,
    .redeem firstCode "plex:2" "2026-01-02T00:00:00.000Z" none .plex false, .letIn "plex:2",
    .issue "plex:2" secondCode "2026-01-03T00:00:00.000Z" (forTwo .user)] ++
  (if late then
    [.revokeSafely "plex:2" "plex:1" "2026-01-03T00:00:00.001Z" false, .insertIssued 0 false]
  else
    [.insertIssued 0 false, .revokeSafely "plex:2" "plex:1" "2026-01-03T00:00:00.001Z" false]) ++
  [.redeem firstCode "plex:2" "2026-01-04T00:00:00.000Z" none .plex false,
    .redeem secondCode "plex:3" "2026-01-05T00:00:00.000Z" none .plex false]

/-- Inserted before the revocation, the invite admits nobody, though its issuer is back. -/
theorem dead_of_runs_readmission : ∃ s, Runs (step digests owned)
    (fun v a => LetIn owned v a ∧ InTime v a) (start .empty) s ∧
    (activeRow s.db "plex:2").isSome ∧ (activeRow s.db "plex:3").isNone ∧
    Dead digests owned s := by
  have h : ∃ s, exec (guarded (step digests owned) fun v a => LetIn owned v a ∧ InTime v a)
      (start .empty) (readmission false) = some s ∧ (activeRow s.db "plex:2").isSome ∧
      (activeRow s.db "plex:3").isNone := ⟨_, rfl, rfl, rfl⟩
  obtain ⟨s, hs, hback, hnot⟩ := h
  have hruns := runs_of_exec_guarded hs
  exact ⟨s, hruns, hback, hnot, dead_of_runs .empty hruns⟩

/-- **Inserted after it, the invite admits someone.** -/
theorem not_dead_inFlight : ∃ s,
    Runs (step digests owned) (fun v a => LetIn owned v a) (start .empty) s ∧
    ¬ Dead digests owned s := by
  have h : ∃ s, exec (guarded (step digests owned) fun v a => LetIn owned v a) (start .empty)
      (readmission true) = some s ∧ .inserted 1 ∈ s.log ∧
      [.redeemed secondCode "plex:3", .revoked "plex:2",
        .issued 1 (digests secondCode) "plex:2"].Sublist s.log := ⟨_, rfl, by decide, by decide⟩
  obtain ⟨s, hs, hinserted, hlate⟩ := h
  exact ⟨s, runs_of_exec_guarded hs, fun hdead => hdead.cascade 1 _ _ _ hinserted hlate⟩

end Household

end EmeraldExchange.Auth
