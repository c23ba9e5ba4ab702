import EmeraldExchange.Auth.Invites
import EmeraldExchange.Auth.Reconcile
import EmeraldExchange.Lib.Runs

/-!
# What is revoked stays revoked

Every operation of the auth crate on the database, in any order, requests that are being
authenticated among them. No statement deletes a revocation or changes one, so that a device token
that was revoked – by itself, by logging out everywhere, or with all tokens of its subject – is
never accepted again (`authentication_sound`).
-/

namespace EmeraldExchange.Auth

inductive Operation (Key F : Type)
  | issue (hash adminSub now : String) (opts : IssueOptions) (fault : Bool)
  | redeem (hash sub now : String) (displayName : Option String) (authMode : AuthMode)
      (fault : Bool)
  | revokeInvite (hash now : String)
  | revokeSafely (target actor now : String) (fault : Bool)
  | revokeSelf (sub now : String) (fault : Bool)
  | mint (keys : Keys Key) (input : MintInput) (jti : String) (now : ℤ) (fault : Bool)
  | revoke (jti now reason : String) (fault : Bool)
  | cascade (sub now reason : String) (fault : Bool)
  | revokeOwn (sub jti now : String) (fault : Bool)
  | revokeAny (jti now : String) (fault : Bool)
  | revokeAllOwn (sub now : String) (fault : Bool)
  | rename (jti : String) (sub deviceName : Option String) (fault : Bool)
  | sweep (now : String) (fault : Bool)
  /-- A statement of the pairing of devices, which leaves some codes. -/
  | linkCodes (codes : Table String LinkCode)
  | authenticate (c : Circumstances) (headers : HeaderMap)

variable {Key F : Type} [LinearOrder F] (srv : AuthServer Key F)

def Operation.run (s : AuthStore) : Operation Key F → AuthStore
  | .issue hash adminSub now opts fault =>
    { s with db := (Auth.issue s.db hash adminSub now opts fault).2 }
  | .redeem hash sub now displayName authMode fault =>
    { s with db := (Auth.redeem s.db hash sub now displayName authMode fault).2 }
  | .revokeInvite hash now => { s with db := Auth.revokeInvite s.db hash now }
  | .revokeSafely target actor now fault =>
    { s with db := (Auth.revokeSafely s.db srv.adminSubs target actor now fault).2 }
  | .revokeSelf sub now fault =>
    { s with db := (Auth.revokeSelf s.db srv.adminSubs sub now fault).2 }
  | .mint keys input jti now fault =>
    { s with db := (Auth.mint srv.jwe srv.iso keys input jti now fault s.db).2 }
  | .revoke jti now reason fault => { s with db := (Auth.revoke s.db jti now reason fault).2 }
  | .cascade sub now reason fault =>
    { s with db := (cascadeRevokeForSub s.db sub now reason fault).2 }
  | .revokeOwn sub jti now fault => { s with db := (Auth.revokeOwn s.db sub jti now fault).2 }
  | .revokeAny jti now fault => { s with db := (Auth.revokeAny s.db jti now fault).2 }
  | .revokeAllOwn sub now fault => { s with db := (Auth.revokeAllOwn s.db sub now fault).2 }
  | .rename jti sub deviceName fault =>
    { s with db := (Auth.rename s.db jti sub deviceName fault).2 }
  | .sweep now fault => { s with db := (sweepExpired s.db now fault).2 }
  | .linkCodes codes => { s with db := { s.db with deviceLinkCodes := codes } }
  | .authenticate c headers => (Auth.authenticate srv c headers s).2

/-- **One step.** -/
def operate (s : AuthStore) (o : Operation Key F) : Option AuthStore := some (o.run srv s)

/-! ### The revocations an operation leaves -/

/-- **No revocation is lost.** -/
structure Keeps (db db' : Db) : Prop where
  mono : ∀ jti, revoked db jti → revoked db' jti

section keeps

variable {db db' : Db} {srv}

theorem Keeps.refl : Keeps db db := ⟨fun _ h => h⟩

theorem keeps_of_eq (h : db'.deviceTokenRevocations = db.deviceTokenRevocations) :
    Keeps db db' := by
  refine ⟨fun jti hrevoked => ?_⟩
  rw [revoked, h]
  exact hrevoked

theorem keeps_insertRevocations (jtis : List String) (now reason : String) :
    Keeps db (insertRevocations db jtis now reason) := by
  refine ⟨fun jti hrevoked => ?_⟩
  rw [revoked_insertRevocations, hrevoked]
  rfl

theorem keeps_transaction {ρ : Type} (fault : Bool) (r : ρ) (jtis : List String)
    (now reason : String) :
    Keeps db (transaction fault db (.ok (r, insertRevocations db jtis now reason))).2 := by
  unfold transaction
  split
  · exact Keeps.refl
  · exact keeps_insertRevocations ..

theorem keeps_revoke (jti now reason : String) (fault : Bool) :
    Keeps db (Auth.revoke db jti now reason fault).2 := by
  unfold Auth.revoke
  split
  · exact Keeps.refl
  · exact keeps_insertRevocations ..

theorem keeps_revokeDevice (sub : Option String) (jti now reason : String) (fault : Bool) :
    Keeps db (revokeDevice db sub jti now reason fault).2 := by
  unfold revokeDevice
  split
  · exact keeps_revoke ..
  · exact Keeps.refl

omit [LinearOrder F] in
theorem keeps_reconcileBearer {c : Circumstances} (claims : DeviceClaims)
    (version : Option String) : Keeps db (reconcileBearer srv c db claims version).2 := by
  unfold reconcileBearer
  split
  · exact Keeps.refl
  split
  · exact keeps_transaction ..
  split
  · exact Keeps.refl
  dsimp only
  split
  · split <;> exact keeps_of_eq rfl
  · exact keeps_of_eq rfl

omit [LinearOrder F] in
theorem keeps_reconcileCookie {c : Circumstances} (s : AuthStore) (session : Session) :
    Keeps s.db (reconcileCookie srv c s session).2.db := by
  unfold reconcileCookie
  split
  · exact Keeps.refl
  split
  · exact keeps_transaction ..
  dsimp only
  split
  · exact keeps_transaction ..
  · split <;> exact Keeps.refl

theorem keeps_authenticate {c : Circumstances} (headers : HeaderMap) (s : AuthStore) :
    Keeps s.db (Auth.authenticate srv c headers s).2.db := by
  unfold Auth.authenticate
  split
  · split
    · split
      · exact Keeps.refl
      · exact Keeps.refl
      next claims _ =>
      have hkeeps : Keeps s.db (reconcileBearer srv c s.db claims (appVersion headers)).2 :=
        keeps_reconcileBearer claims (appVersion headers)
      split <;> next heq => rw [heq] at hkeeps; exact hkeeps
    · exact Keeps.refl
  · split
    · exact Keeps.refl
    next decoded _ =>
    have hkeeps : Keeps s.db (reconcileCookie srv c s decoded).2.db :=
      keeps_reconcileCookie s decoded
    split <;> next heq => rw [heq] at hkeeps; exact hkeeps

/-- **Every operation keeps the revocations.** -/
theorem Operation.keeps (s : AuthStore) (o : Operation Key F) : Keeps s.db (o.run srv s).db := by
  rcases o with ⟨hash, adminSub, now, opts, fault⟩ |
    ⟨hash, sub, now, displayName, authMode, fault⟩ | ⟨⟩ | ⟨target, actor, now, fault⟩ |
    ⟨sub, now, fault⟩ | ⟨keys, input, jti, now, fault⟩ | ⟨jti, now, reason, fault⟩ |
    ⟨sub, now, reason, fault⟩ | ⟨sub, jti, now, fault⟩ | ⟨jti, now, fault⟩ | ⟨sub, now, fault⟩ |
    ⟨jti, sub, deviceName, fault⟩ | ⟨now, fault⟩ | codes | ⟨c, headers⟩
  case issue =>
    refine keeps_of_eq ?_
    simp only [run, Auth.issue]
    split
    · rfl
    · rcases insertInvite_cases s.db hash (.issued adminSub now opts) fault with heq | ⟨heq, -⟩ <;>
        rw [heq]
  case redeem =>
    refine keeps_of_eq ?_
    rcases redeem_cases s.db hash sub now displayName authMode fault with ⟨-, hdb⟩ | ⟨i, -, heq⟩
    · simp only [run, hdb]
    · simp only [run, heq]
      rfl
  case revokeSafely =>
    refine keeps_of_eq ?_
    rcases revokeSafely_cases s.db srv.adminSubs target actor now fault with ⟨-, hdb⟩ | ⟨heq, -⟩
    · simp only [run, hdb]
    · simp only [run, heq]
      rfl
  case revokeSelf =>
    refine keeps_of_eq ?_
    rcases revokeSelf_cases s.db srv.adminSubs sub now fault with ⟨-, hdb⟩ | ⟨heq, -⟩
    · simp only [run, hdb]
    · simp only [run, heq]
      rfl
  case mint =>
    refine keeps_of_eq ?_
    simp only [run, Auth.mint]
    split
    · rfl
    · split <;> rfl
  case revoke => exact keeps_revoke ..
  case cascade => exact keeps_transaction ..
  case revokeOwn | revokeAny => exact keeps_revokeDevice ..
  case revokeAllOwn => exact keeps_transaction ..
  case rename =>
    refine keeps_of_eq ?_
    simp only [run, Auth.rename]
    split
    · rfl
    · split
      · rfl
      · split <;> rfl
  case sweep =>
    refine keeps_of_eq ?_
    simp only [run, sweepExpired]
    split <;> rfl
  case revokeInvite | linkCodes => exact keeps_of_eq rfl
  case authenticate => exact keeps_authenticate headers s

theorem revoked_of_cascade {sub jti now reason : String} {row : DeviceToken}
    (hrow : db.deviceTokens.lookup jti = some row) (hsub : row.sub = sub) :
    revoked (cascadeRevokeForSub db sub now reason false).2 jti := by
  have hmem : jti ∈ tokensOf db sub :=
    List.mem_map.mpr ⟨⟨jti, row⟩, List.mem_filter.mpr ⟨AList.mem_lookup_iff.mp hrow, by simpa⟩, rfl⟩
  show revoked (insertRevocations db (tokensOf db sub) now reason) jti = true
  rw [revoked_insertRevocations, decide_eq_true hmem, Bool.or_true]

end keeps

/-- **Authentication never outlives authority.** Who is let in is allowed and has the role of the
members and the configuration, before and after; a request that sends a device token is decided by
the token alone, and cookies change nothing of what it does; and a token that was revoked, by itself
or with all of its subject, is not accepted after any operations. -/
theorem authentication_sound :
    (∀ c headers s p s', authenticate srv c headers s = (.ok p, s') →
      Authorized srv s.db p.session ∧ Authorized srv s'.db p.session) ∧
    (∀ c headers headers' s token, bearer headers = some token →
      (bearer headers' = some token →
        (authenticate srv c headers s).1 = (authenticate srv c headers' s).1) ∧
      (cookieless headers = cookieless headers' →
        authenticate srv c headers s = authenticate srv c headers' s)) ∧
    (∀ db jti now reason, revoked (revoke db jti now reason false).2 jti ∧
      ∀ row, db.deviceTokens.lookup jti = some row →
        revoked (cascadeRevokeForSub db row.sub now reason false).2 jti) ∧
    ∀ s t jti, revoked s.db jti → Runs (operate srv) anyStep s t →
      ∀ c headers token keys claims, bearer headers = some (some token) →
        srv.deviceKeys = some keys → decrypt srv.jwe keys.keys token = .ok claims →
        claims.jti = jti → ∀ p, (authenticate srv c headers t).1 ≠ .ok p := by
  refine ⟨fun c headers s p s' h => ?_, fun c headers headers' s token htoken => ?_,
    fun db jti now reason => ?_, fun s t jti hrevoked hruns => ?_⟩
  · obtain ⟨hauthorized, hmembers⟩ := authenticate_ok h
    exact ⟨hauthorized, hauthorized.congr hmembers⟩
  · refine ⟨fun htoken' => authenticate_bearer htoken htoken', fun hcookieless => ?_⟩
    exact authenticate_cookieless hcookieless (by simp [htoken])
  · refine ⟨?_, fun row hrow => revoked_of_cascade hrow rfl⟩
    show revoked (insertRevocations db [jti] now reason) jti = true
    simp [revoked_insertRevocations]
  · have hstill : revoked t.db jti := hruns.invariant (P := fun v => revoked v.db jti) hrevoked
      fun v o w hv _ hstep => by
        obtain rfl := Option.some.inj hstep
        exact (o.keeps v).mono jti hv
    rintro c headers token keys claims htoken hkeys hclaims rfl p hok
    have hresult : authenticate srv c headers t = (.ok p, (authenticate srv c headers t).2) :=
      Prod.ext hok rfl
    have hfalse := not_revoked_of_authenticate htoken hkeys hclaims hresult
    exact absurd hstill (by simp [hfalse])

/-! ### A device of a member -/

/-- The claims of a token that was minted for an administrator. -/
def pairedClaims : DeviceClaims :=
  ⟨"device", "eex", "plex:2", "admin", "plex", "01HABCDEFGHJKMNPQRSTVWXYZ0", "tvos",
    "5d2f0d51-6d7c-4b5e-9b0a-2f3c4d5e6f70", "01HWXYZ01234567890ABCDEFGH", 1767225600, 1767225600,
    1767225600 + defaultTtlSecs⟩

def pairedServer : AuthServer Unit ℤ where
  adminSubs := ["plex:1"]
  plexServerId := none
  deviceKeys := some (Keys.single ())
  jwe :=
    { header := fun _ => some ⟨"dir", "A256GCM", defaultKid⟩
      decryptWithKey := fun _ _ => some []
      claims := fun _ => some pairedClaims
      encrypt := fun _ _ _ => "t" }
  cookieJwe := ⟨fun _ => none, fun _ => none, id⟩
  iso _ := "2026-01-01T00:00:00.000Z"
  fingerprint := id

/-- Whoever the token is for is no administrator any more. -/
def pairedStore : AuthStore where
  db :=
    { Db.empty with
      members := Table.insert "plex:2"
        ⟨none, .user, "plex", some "plex:1", "2026-01-01T00:00:00.000Z", none⟩ ∅
      deviceTokens := Table.insert "01HWXYZ01234567890ABCDEFGH"
        ⟨"plex:2", "01HABCDEFGHJKMNPQRSTVWXYZ0", "Living room", some "Ada", "tvos",
          "5d2f0d51-6d7c-4b5e-9b0a-2f3c4d5e6f70", defaultKid, "2026-01-01T00:00:00.000Z",
          "2026-06-30T00:00:00.000Z", none, none⟩ ∅ }
  gate := ⟨0, ∅⟩

def quiet : Circumstances :=
  ⟨1767225600, 1767225600, 1767225600, "2026-01-01 00:00:00", .ok, false, false, false, false,
    false⟩

/-- The request sends the token `t`. -/
def pairedHeaders : HeaderMap := [("authorization", bearerScheme ++ [0x74])]

/-- The device is let in with the role of now, and no more once the tokens of its member were
revoked. -/
theorem authentication_sound_paired :
    ((authenticate pairedServer quiet pairedHeaders pairedStore).1.toOption.map
      (·.session.role)) = some .user ∧
    ∃ s t, exec (operate pairedServer) pairedStore
        [.cascade "plex:2" "2026-01-02 00:00:00" "member_revoked" false] = some s ∧
      exec (operate pairedServer) s
        [.rename "01HWXYZ01234567890ABCDEFGH" none (some "Bedroom") false,
          .sweep "2026-01-03T00:00:00.000Z" false] = some t ∧
      ∀ p, (authenticate pairedServer quiet pairedHeaders t).1 ≠ .ok p := by
  have h : ∃ s, exec (operate pairedServer) pairedStore
        [.cascade "plex:2" "2026-01-02 00:00:00" "member_revoked" false] = some s ∧
      revoked s.db "01HWXYZ01234567890ABCDEFGH" ∧
      ∃ t, exec (operate pairedServer) s
        [.rename "01HWXYZ01234567890ABCDEFGH" none (some "Bedroom") false,
          .sweep "2026-01-03T00:00:00.000Z" false] = some t := ⟨_, rfl, rfl, _, rfl⟩
  obtain ⟨s, hs, hrevoked, t, ht⟩ := h
  exact ⟨rfl, s, t, hs, ht, (authentication_sound pairedServer).2.2.2 s t _ hrevoked
    (runs_of_exec ht) quiet pairedHeaders "t" _ pairedClaims rfl rfl rfl rfl⟩

end EmeraldExchange.Auth
