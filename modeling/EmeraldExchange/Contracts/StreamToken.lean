import EmeraldExchange.Contracts.Canonical
import EmeraldExchange.Lib.Base64
import EmeraldExchange.Lib.Utf8

/-!
# Stream tokens

A token is a canonical JSON text of its claims and the HMAC of that text, each in base64, with a
full stop between. The signer writes the text by hand; the verifier compares the HMAC of what it
decodes and then reads the claims with a JSON parser.

HMAC, base64 and the JSON parser are third-party code, so they are parameters
(`Primitives`), with what the module relies on as their laws. The main
results are `StreamClaims.exists_spelling`, that the canonical text is
JSON whose members are the claims, and `stream_token_codec`, that
signing and verifying are inverse and that no two claims have one canonical text.
-/

namespace EmeraldExchange.Contracts

open Json

/-! ### Claims -/

inductive StreamKind
  | live | vod | series | catchup | segment | remux | playlist | recording
  deriving DecidableEq

def StreamKind.asWire : StreamKind → String
  | .live => "live"
  | .vod => "vod"
  | .series => "series"
  | .catchup => "catchup"
  | .segment => "segment"
  | .remux => "remux"
  | .playlist => "playlist"
  | .recording => "recording"

/-- The kind of a text, unless it is not one of them. -/
def StreamKind.fromWire (s : String) : Option StreamKind :=
  match s with
  | "live" => some .live
  | "vod" => some .vod
  | "series" => some .series
  | "catchup" => some .catchup
  | "segment" => some .segment
  | "remux" => some .remux
  | "playlist" => some .playlist
  | "recording" => some .recording
  | _ => none

@[simp] theorem StreamKind.fromWire_asWire (k : StreamKind) : fromWire k.asWire = some k := by
  cases k <;> rfl

theorem StreamKind.asWire_injective : Function.Injective asWire := by
  intro k k' h
  have hk := fromWire_asWire k
  rw [h, fromWire_asWire k'] at hk
  exact (Option.some.inj hk).symm

/-- **The claims of a stream token.** -/
structure StreamClaims where
  exp : Int64
  iat : Int64
  jti : String
  k : StreamKind
  nbf : Int64
  rid : String
  sub : String
  v : UInt32
  deriving DecidableEq

inductive TokenError
  | malformed
  | badBase64
  | badSignature
  | badPayload
  | unsupportedVersion
  | notYetValid
  | expired
  | unknownKind
  | badTtl
  deriving DecidableEq

def pushStr (s : String) : List Char := s.toList

/-- The text that is signed: the claims in alphabetical order, without white space. -/
def canonicalText (claims : StreamClaims) : List Char :=
  pushStr "\x7b\"exp\":" ++ Decimal.intText claims.exp.toInt ++
  pushStr ",\"iat\":" ++ Decimal.intText claims.iat.toInt ++
  pushStr ",\"jti\":" ++ jsonEscapeString claims.jti ++
  pushStr ",\"k\":" ++ jsonEscapeString claims.k.asWire ++
  pushStr ",\"nbf\":" ++ Decimal.intText claims.nbf.toInt ++
  pushStr ",\"rid\":" ++ jsonEscapeString claims.rid ++
  pushStr ",\"sub\":" ++ jsonEscapeString claims.sub ++
  pushStr ",\"v\":" ++ Decimal.text claims.v.toNat ++
  ['}']

/-- **The bytes that are signed.** -/
def canonicalBytes (claims : StreamClaims) : List UInt8 := Utf8.encode (canonicalText claims)

/-! ### Signing and verifying -/

/-- **HMAC, base64 and the JSON parser**, and what is relied on. -/
structure Primitives where
  /-- HMAC-SHA256 of a text under a key. -/
  mac : List UInt8 → List UInt8 → List UInt8
  /-- Base64 in the URL-safe alphabet, without padding. -/
  encode : List UInt8 → List Char
  /-- Its inverse. -/
  decode : List Char → Option (List UInt8)
  /-- The JSON value of bytes. -/
  fromSlice : List UInt8 → Option Value
  decode_encode : ∀ bytes, decode (encode bytes) = some bytes
  dot_notMem_encode : ∀ bytes, '.' ∉ encode bytes
  fromSlice_text : ∀ ms : Spelling, ms.InRange →
    fromSlice (Utf8.encode ms.text) = some (.object ms.members)

variable (P : Primitives)

/-- **Sign claims.** -/
def sign (secretBytes : List UInt8) (claims : StreamClaims) : List Char :=
  let canonical := canonicalBytes claims
  P.encode canonical ++ '.' :: P.encode (P.mac secretBytes canonical)

def splitToken (token : List Char) : Except TokenError (List UInt8 × List UInt8) :=
  match token.splitOn '.' with
  | [payloadB64, sigB64] =>
    match P.decode payloadB64 with
    | none => .error .badBase64
    | some canonical =>
      match P.decode sigB64 with
      | none => .error .badBase64
      | some sig => .ok (canonical, sig)
  | _ => .error .malformed

def computeAndCompare (secretBytes canonical sig : List UInt8) : Bool :=
  let computed := P.mac secretBytes canonical
  if sig.length ≠ computed.length then false else computed == sig

/-- An integer that 64 bits hold with a sign. -/
def asI64 : Value → Option Int64
  | .int z => if -2 ^ 63 ≤ z ∧ z < 2 ^ 63 then some (Int64.ofInt z) else none
  | _ => none

/-- An integer that 64 bits hold without a sign. -/
def asU64 : Value → Option ℕ
  | .int z => if 0 ≤ z ∧ z < 2 ^ 64 then some z.toNat else none
  | _ => none

def asStr : Value → Option String
  | .string s => some s
  | _ => none

/-- A member of an object that has to be there. -/
def field {α : Type} (obj : List (String × Value)) (key : String) (read : Value → Option α) :
    Except TokenError α :=
  match (get obj key).bind read with
  | some a => .ok a
  | none => .error .badPayload

/-- **The claims of signed bytes.** -/
def parseCanonical (bytes : List UInt8) : Except TokenError StreamClaims := do
  let some value := P.fromSlice bytes | throw .badPayload
  let some obj := value.asObject | throw .badPayload
  let version ← field obj "v" asU64
  if version ≠ 1 then throw .unsupportedVersion
  let kindStr ← field obj "k" asStr
  let some k := StreamKind.fromWire kindStr | throw .unknownKind
  let exp ← field obj "exp" asI64
  let iat ← field obj "iat" asI64
  let jti ← field obj "jti" asStr
  let nbf ← field obj "nbf" asI64
  let rid ← field obj "rid" asStr
  let sub ← field obj "sub" asStr
  return { exp, iat, jti, k, nbf, rid, sub, v := UInt32.ofNat version }

/-- **Verify a token** with one key; the times are not looked at. -/
def verify (secretBytes : List UInt8) (token : List Char) : Except TokenError StreamClaims := do
  let (canonical, sig) ← splitToken P token
  if !computeAndCompare P secretBytes canonical sig then throw .badSignature
  parseCanonical P canonical

/-- Verify a token with two keys, and say whether only the second matched. -/
def verifyDualKey (primary fallback : List UInt8) (token : List Char) :
    Except TokenError (StreamClaims × Bool) := do
  let (canonical, sig) ← splitToken P token
  let primaryOk := computeAndCompare P primary canonical sig
  let fallbackOk := computeAndCompare P fallback canonical sig
  if !primaryOk && !fallbackOk then throw .badSignature
  let claims ← parseCanonical P canonical
  return (claims, !primaryOk && fallbackOk)

/-! ### The time window -/

/-- How long before `nbf` a token is accepted. -/
def NBF_SKEW_SECS : Int64 := 30

/-- How long after `exp` a token is accepted. -/
def EXP_SKEW_SECS : Int64 := 5

def MAX_TTL_SECS : Int64 := 91 * 24 * 60 * 60

/-- **Check the times** of claims. -/
def enforceTimeWindow (claims : StreamClaims) (now : Int64) : Except TokenError Unit :=
  if claims.exp - claims.iat > MAX_TTL_SECS then .error .badTtl
  else if claims.nbf > claims.iat ∧ claims.exp < claims.nbf then .error .badTtl
  else if now + NBF_SKEW_SECS < claims.nbf then .error .notYetValid
  else if now - EXP_SKEW_SECS > claims.exp then .error .expired
  else .ok ()

/-! ### The canonical text is JSON -/

namespace StreamClaims

def members (claims : StreamClaims) : List (String × Value) :=
  [("exp", .int claims.exp.toInt), ("iat", .int claims.iat.toInt), ("jti", .string claims.jti),
    ("k", .string claims.k.asWire), ("nbf", .int claims.nbf.toInt), ("rid", .string claims.rid),
    ("sub", .string claims.sub), ("v", .int claims.v.toNat)]

theorem template_eq :
    pushStr "\x7b\"exp\":" = '{' :: (jsonEscapeString "exp" ++ [':']) ∧
    pushStr ",\"iat\":" = ',' :: (jsonEscapeString "iat" ++ [':']) ∧
    pushStr ",\"jti\":" = ',' :: (jsonEscapeString "jti" ++ [':']) ∧
    pushStr ",\"k\":" = ',' :: (jsonEscapeString "k" ++ [':']) ∧
    pushStr ",\"nbf\":" = ',' :: (jsonEscapeString "nbf" ++ [':']) ∧
    pushStr ",\"rid\":" = ',' :: (jsonEscapeString "rid" ++ [':']) ∧
    pushStr ",\"sub\":" = ',' :: (jsonEscapeString "sub" ++ [':']) ∧
    pushStr ",\"v\":" = ',' :: (jsonEscapeString "v" ++ [':']) := by
  refine ⟨?_, ?_, ?_, ?_, ?_, ?_, ?_, ?_⟩ <;> decide

/-- **The canonical text is a JSON object of the claims**, whatever their strings hold. -/
theorem exists_spelling (claims : StreamClaims) : ∃ ms : Spelling,
    ms.text = canonicalText claims ∧ ms.members = claims.members ∧ ms.InRange := by
  obtain ⟨exp, hexp, hexp'⟩ := exists_pieces "exp"
  obtain ⟨iat, hiat, hiat'⟩ := exists_pieces "iat"
  obtain ⟨jti, hjti, hjti'⟩ := exists_pieces "jti"
  obtain ⟨k, hk, hk'⟩ := exists_pieces "k"
  obtain ⟨nbf, hnbf, hnbf'⟩ := exists_pieces "nbf"
  obtain ⟨rid, hrid, hrid'⟩ := exists_pieces "rid"
  obtain ⟨sub, hsub, hsub'⟩ := exists_pieces "sub"
  obtain ⟨v, hv, hv'⟩ := exists_pieces "v"
  obtain ⟨jtis, hjtis, hjtis'⟩ := exists_pieces claims.jti
  obtain ⟨ks, hks, hks'⟩ := exists_pieces claims.k.asWire
  obtain ⟨rids, hrids, hrids'⟩ := exists_pieces claims.rid
  obtain ⟨subs, hsubs, hsubs'⟩ := exists_pieces claims.sub
  refine ⟨[(exp, .int claims.exp.toInt), (iat, .int claims.iat.toInt), (jti, .string jtis),
    (k, .string ks), (nbf, .int claims.nbf.toInt), (rid, .string rids), (sub, .string subs),
    (v, .int claims.v.toNat)], ?_, ?_, ?_⟩
  · have hversion : Decimal.intText claims.v.toNat = Decimal.text claims.v.toNat := by
      simp [Decimal.intText]
    obtain ⟨t₁, t₂, t₃, t₄, t₅, t₆, t₇, t₈⟩ := template_eq
    simp only [Spelling.text, membersText, memberText, Scalar.text, hexp, hiat, hjti, hk, hnbf,
      hrid, hsub, hv, hjtis, hks, hrids, hsubs, hversion, canonicalText, t₁, t₂, t₃, t₄, t₅, t₆,
      t₇, t₈, List.append_assoc, List.cons_append, List.nil_append]
  · simp only [Spelling.members, List.map_cons, List.map_nil, Scalar.value, hexp', hiat', hjti',
      hk', hnbf', hrid', hsub', hv', hjtis', hks', hrids', hsubs', members]
  · have hint : ∀ n : Int64, -2 ^ 63 ≤ n.toInt ∧ n.toInt < 2 ^ 64 := fun n =>
      ⟨n.le_toInt, by have := n.toInt_lt; omega⟩
    have hversion := claims.v.toNat_lt
    exact ((((((((Spelling.inRange_nil.cons_int v (by omega) (by omega)).cons_string sub
      subs).cons_string rid rids).cons_int nbf (hint _).1 (hint _).2).cons_string k
      ks).cons_string jti jtis).cons_int iat (hint _).1 (hint _).2).cons_int exp (hint _).1
      (hint _).2)

theorem members_injective : Function.Injective members := by
  rintro ⟨exp, iat, jti, k, nbf, rid, sub, v⟩ ⟨exp', iat', jti', k', nbf', rid', sub', v'⟩ h
  simp only [members, List.cons.injEq, Prod.mk.injEq, Value.int.injEq, Value.string.injEq,
    true_and, and_true, Int64.toInt_inj, Nat.cast_inj, UInt32.toNat_inj] at h
  obtain ⟨rfl, rfl, rfl, hk, rfl, rfl, rfl, rfl⟩ := h
  rw [StreamKind.asWire_injective hk]

end StreamClaims

/-- **No two claims have the same signed bytes.** -/
theorem canonicalBytes_injective : Function.Injective canonicalBytes := by
  intro claims claims' h
  obtain ⟨ms, htext, hmembers, -⟩ := claims.exists_spelling
  obtain ⟨ms', htext', hmembers', -⟩ := claims'.exists_spelling
  have hsame : ms.text = ms'.text := by
    rw [htext, htext', Utf8.encode_injective h]
  apply StreamClaims.members_injective
  rw [← hmembers, ← hmembers', members_eq_of_text_eq hsame]

/-! ### What is signed is verified -/

theorem asI64_toInt (n : Int64) : asI64 (.int n.toInt) = some n := by
  have hle := n.le_toInt
  have hlt := n.toInt_lt
  rw [asI64, if_pos ⟨by omega, by omega⟩, Int64.ofInt_toInt]

/-- **The claims are read back** from the bytes that are signed for them. -/
theorem parseCanonical_canonicalBytes {claims : StreamClaims} (hv : claims.v = 1) :
    parseCanonical P (canonicalBytes claims) = .ok claims := by
  obtain ⟨ms, htext, hmembers, hrange⟩ := claims.exists_spelling
  have hslice : P.fromSlice (canonicalBytes claims) = some (.object claims.members) := by
    rw [canonicalBytes, ← htext, P.fromSlice_text ms hrange, hmembers]
  obtain ⟨exp, iat, jti, k, nbf, rid, sub, v⟩ := claims
  obtain rfl : v = 1 := hv
  simp [parseCanonical, hslice, Value.asObject, field, Json.get, StreamClaims.members, asU64, asStr,
    asI64_toInt, bind, Except.bind, pure, Except.pure]

theorem splitToken_sign (secretBytes : List UInt8) (claims : StreamClaims) :
    splitToken P (sign P secretBytes claims) =
      .ok (canonicalBytes claims, P.mac secretBytes (canonicalBytes claims)) := by
  have hdot : ∀ bytes, ∀ c ∈ P.encode bytes, (c == '.') = false := by
    rintro bytes c hc
    exact beq_false_of_ne fun h => P.dot_notMem_encode bytes (h ▸ hc)
  have hsplit : (sign P secretBytes claims).splitOn '.' =
      [P.encode (canonicalBytes claims),
        P.encode (P.mac secretBytes (canonicalBytes claims))] := by
    rw [sign, List.splitOn_eq_splitOnP,
      List.splitOnP_append_cons_of_forall_mem (hdot _) '.' (by decide),
      List.splitOnP_eq_singleton (hdot _)]
  simp [splitToken, hsplit, P.decode_encode]

theorem computeAndCompare_mac (secretBytes canonical : List UInt8) :
    computeAndCompare P secretBytes canonical (P.mac secretBytes canonical) = true := by
  simp [computeAndCompare]

/-- **A signed token is verified as its claims.** -/
theorem verify_sign (secretBytes : List UInt8) {claims : StreamClaims} (hv : claims.v = 1) :
    verify P secretBytes (sign P secretBytes claims) = .ok claims := by
  simp [verify, splitToken_sign, computeAndCompare_mac, parseCanonical_canonicalBytes P hv, bind,
    Except.bind]

/-- **Two keys are tried as if one after the other**, though both are always computed, and what
either has signed is read. -/
theorem verifyDualKey_spec (primary fallback : List UInt8) (token : List Char) :
    (verifyDualKey P primary fallback token =
      match verify P primary token with
      | .error .badSignature => (verify P fallback token).map (·, true)
      | result => result.map (·, false)) ∧
    ∀ claims : StreamClaims, claims.v = 1 →
      token = sign P primary claims ∨ token = sign P fallback claims →
      ∃ used, verifyDualKey P primary fallback token = .ok (claims, used) := by
  constructor
  · rw [verifyDualKey, verify, verify]
    cases splitToken P token with
    | error e => cases e <;> rfl
    | ok parts =>
      dsimp only [bind, Except.bind]
      cases computeAndCompare P primary parts.1 parts.2 with
      | true => cases parseCanonical P parts.1 with
        | error e => cases e <;> cases computeAndCompare P fallback parts.1 parts.2 <;> rfl
        | ok claims => rfl
      | false => cases computeAndCompare P fallback parts.1 parts.2 with
        | true => cases parseCanonical P parts.1 <;> rfl
        | false => rfl
  · rintro claims hv (rfl | rfl) <;>
      rw [verifyDualKey, splitToken_sign] <;>
      simp [computeAndCompare_mac, parseCanonical_canonicalBytes P hv, bind, Except.bind, pure,
        Except.pure]

/-! ### The window -/

/-- **Claims that may be minted**: of this version, with a life that is a policy's, and a start
that does not lie after both the mint time and the end. -/
structure StreamClaims.Valid (claims : StreamClaims) : Prop where
  version : claims.v = 1
  ttl_le : claims.exp.toInt - claims.iat.toInt ≤ MAX_TTL_SECS.toInt
  le_ttl : -2 ^ 63 ≤ claims.exp.toInt - claims.iat.toInt
  order : claims.nbf ≤ claims.iat ∨ claims.nbf ≤ claims.exp

/-- **The validity window**, with its skew, of a clock far enough from the ends of its range. -/
structure StreamClaims.Window (claims : StreamClaims) (now : Int64) : Prop where
  nbf_le : claims.nbf.toInt ≤ now.toInt + NBF_SKEW_SECS.toInt
  le_exp : now.toInt - EXP_SKEW_SECS.toInt ≤ claims.exp.toInt
  now_lt : now.toInt + NBF_SKEW_SECS.toInt < 2 ^ 63
  le_now : -2 ^ 63 ≤ now.toInt - EXP_SKEW_SECS.toInt

theorem toInt_sub_of_bounds {a b : Int64} (hle : -2 ^ 63 ≤ a.toInt - b.toInt)
    (hlt : a.toInt - b.toInt < 2 ^ 63) : (a - b).toInt = a.toInt - b.toInt := by
  rw [Int64.toInt_sub, Int.bmod_eq_of_le (by omega) (by omega)]

theorem toInt_add_of_bounds {a b : Int64} (hle : -2 ^ 63 ≤ a.toInt + b.toInt)
    (hlt : a.toInt + b.toInt < 2 ^ 63) : (a + b).toInt = a.toInt + b.toInt := by
  rw [Int64.toInt_add, Int.bmod_eq_of_le (by omega) (by omega)]

/-- **Valid claims are accepted inside their window.** -/
theorem enforceTimeWindow_of_window {claims : StreamClaims} {now : Int64} (hvalid : claims.Valid)
    (hwindow : claims.Window now) : enforceTimeWindow claims now = .ok () := by
  have hskew : NBF_SKEW_SECS.toInt = 30 ∧ EXP_SKEW_SECS.toInt = 5 ∧
      MAX_TTL_SECS.toInt = 7862400 := by decide
  obtain ⟨-, httl, httl', horder⟩ := hvalid
  obtain ⟨hnbf, hexp, hlt, hle⟩ := hwindow
  have hnow := now.le_toInt
  have hnow' := now.toInt_lt
  have hspan := toInt_sub_of_bounds httl' (by omega)
  have hearly := toInt_add_of_bounds (a := now) (b := NBF_SKEW_SECS) (by omega) hlt
  have hlate := toInt_sub_of_bounds hle (by omega)
  simp only [Int64.le_iff_toInt_le] at horder
  simp only [enforceTimeWindow, gt_iff_lt, Int64.lt_iff_toInt_lt, hspan, hearly, hlate]
  rw [if_neg (by omega), if_neg (by omega), if_neg (by omega), if_neg (by omega)]

/-! ### The codec -/

/-- **The stream token codec.** Under every key, claims of version 1 are verified from what is
signed for them, as themselves; valid claims are accepted inside their window; and no two claims
have the same signed bytes. -/
theorem stream_token_codec :
    (∀ secretBytes claims, claims.v = 1 →
      verify P secretBytes (sign P secretBytes claims) = .ok claims) ∧
    (∀ claims now, claims.Valid → claims.Window now → enforceTimeWindow claims now = .ok ()) ∧
    Function.Injective canonicalBytes :=
  ⟨fun secretBytes _ hv => verify_sign P secretBytes hv,
    fun _ _ hvalid hwindow => enforceTimeWindow_of_window hvalid hwindow,
    canonicalBytes_injective⟩

/-- The claims of the `live-basic` vector. -/
def sampleClaims : StreamClaims where
  exp := 1748256000
  iat := 1748169600
  jti := "01HWXYZ01234567890ABCDEFGH"
  k := .live
  nbf := 1748169600
  rid := "ch-101"
  sub := "plex:12345"
  v := 1

def sampleKey : List UInt8 := Utf8.encode "TEST_SECRET_32_CHARS_FIXED_VALUE_X".toList

/-- Base64 and JSON as they are, and H0x4b, 0x0b, 0x2e, 0x58, 0x92, 0x53, 0x52, 0x69,
    0xed, 0xdb, 0x6a, 0x08, 0x01, 0x43, 0xed, 0xaa,
    0xe7, 0x7c, 0xa3, 0x22, 0x75, 0x72, 0xf4, 0x40,
    0x62, 0x21, 0xab, 0x4c, 0x2e, 0xb1, 0xec, 0x1f as it is on the vector. -/
def samplePrimitives : Primitives where
  mac _ _ := [
    0x4b, 0x0b, 0x2e, 0x58, 0x92, 0x53, 0x52, 0x69,
    0xed, 0xdb, 0x6a, 0x08, 0x01, 0x43, 0xed, 0xaa,
    0xe7, 0x7c, 0xa3, 0x22, 0x75, 0x72, 0xf4, 0x40,
    0x62, 0x21, 0xab, 0x4c, 0x2e, 0xb1, 0xec, 0x1f]
  encode := Base64.encode
  decode := Base64.decode
  fromSlice bytes := (Utf8.decode bytes).bind parse
  decode_encode := Base64.decode_encode
  dot_notMem_encode := Base64.dot_notMem_encode
  fromSlice_text ms _ := by
    rw [Utf8.decode_encode]
    exact parse_text ms

/-- The vector is verified as its claims, and accepted at its mint time. -/
theorem stream_token_codec_sample :
    verify samplePrimitives sampleKey (sign samplePrimitives sampleKey sampleClaims) =
      .ok sampleClaims ∧ enforceTimeWindow sampleClaims 1748169600 = .ok () :=
  have hcodec := stream_token_codec samplePrimitives
  ⟨hcodec.1 sampleKey sampleClaims rfl,
    hcodec.2.1 sampleClaims 1748169600 ⟨rfl, by decide, by decide, by decide⟩
      ⟨by decide, by decide, by decide, by decide⟩⟩

end EmeraldExchange.Contracts
