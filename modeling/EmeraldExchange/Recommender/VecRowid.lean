import EmeraldExchange.Lib.TagBit
import EmeraldExchange.Recommender.Featurize
import EmeraldExchange.Recommender.Retrieval

/-!
# The rows of the vectors

The vectors of films and shows are rows of one table, and a film and a show can have one
identifier: the row of a show has bit 32 set. An identifier of 2³² or more is not accepted.

A negative one is. It has bit 32 set or not as it happens, and so a film's row may be read as a
show's, and a show's row may be a film's (`not_own_neg`). A
row is its title's alone exactly where a show's identifier is not negative and a film's does not
have the bit (`own_iff_apart`).

Identifiers are words here. As numbers they are what the other modules of the recommender compute
with (`encodeVecRowid_toInt`,
`decodeVecRowid_toInt`).
-/

namespace EmeraldExchange.Recommender.VecRowid

open TagBit

inductive Invalid
  | unknownKind (kind : String)
  | tooLarge (tmdbId : Int64)
  | kindMismatch (rowid : Int64) (kind want : String)
  deriving DecidableEq

/-- The text of an error, given how a text is quoted. -/
def Invalid.text (debug : String → String) : Invalid → String
  | .unknownKind kind => s!"unknown kind: {debug kind}"
  | .tooLarge tmdbId => s!"tmdb_id too large for vec rowid encoding: {tmdbId}"
  | .kindMismatch rowid kind want =>
    s!"vec rowid kind mismatch: rowid={rowid} encodes {kind}, expected {want}"

/-- `KIND_BIT` -/
def kindBit : Int64 := (1 : Int64) <<< (32 : Int64)

def tv (kind : String) : Except Invalid Bool :=
  match kind with
  | "movie" => .ok false
  | "tv" => .ok true
  | _ => .error (.unknownKind kind)

/-- **`encode_vec_rowid`** -/
def encodeVecRowid (kind : String) (tmdbId : Int64) : Except Invalid Int64 := do
  let tv ← tv kind
  if kindBit ≤ tmdbId then .error (.tooLarge tmdbId)
  else .ok (if tv then tmdbId ||| kindBit else tmdbId)

/-- **`decode_vec_rowid`** -/
def decodeVecRowid (rowid : Int64) (expectedKind : Option String) :
    Except Invalid (String × Int64) :=
  let kind := if rowid &&& kindBit ≠ 0 then "tv" else "movie"
  match expectedKind.filter (· ≠ kind) with
  | some want => .error (.kindMismatch rowid kind want)
  | none => .ok (kind, rowid &&& ~~~kindBit)

variable {kind : String} {tmdbId rowid : Int64}

/-! ### The bit -/

theorem toBitVec_kindBit : kindBit.toBitVec = .twoPow 64 32 := by decide

theorem toInt_kindBit : kindBit.toInt = 2 ^ 32 := by decide

theorem and_kindBit_ne_zero : rowid &&& kindBit ≠ 0 ↔ tagged 32 rowid.toBitVec = true := by
  rw [← and_twoPow_ne_zero_iff (by decide), ← toBitVec_kindBit, ← Int64.toBitVec_and, ne_eq, ne_eq,
    ← Int64.toBitVec_inj]
  rfl

theorem tagged_iff (x : Int64) : tagged 32 x.toBitVec = true ↔ x.toInt / 2 ^ 32 % 2 = 1 := by
  have h := x.toBitVec.isLt
  rw [tagged, BitVec.getLsbD, Nat.testBit_eq_decide_div_mod_eq, decide_eq_true_iff, Int64.toInt,
    BitVec.toInt_eq_toNat_cond]
  split <;> omega

theorem toBitVec_or_kindBit (x : Int64) : (x ||| kindBit).toBitVec = set 32 x.toBitVec := by
  rw [Int64.toBitVec_or, toBitVec_kindBit]
  rfl

theorem toBitVec_and_not_kindBit (x : Int64) :
    (x &&& ~~~kindBit).toBitVec = clear 32 x.toBitVec := by
  rw [Int64.toBitVec_and, Int64.toBitVec_not, toBitVec_kindBit]
  rfl

theorem and_kindBit_eq_zero : rowid &&& kindBit = 0 ↔ tagged 32 rowid.toBitVec = false := by
  rw [← Bool.not_eq_true, ← and_kindBit_ne_zero, not_not]

theorem or_kindBit_and_ne_zero : (tmdbId ||| kindBit) &&& kindBit ≠ 0 := by
  rw [and_kindBit_ne_zero, toBitVec_or_kindBit]
  exact tagged_set (by decide)

theorem and_not_kindBit_eq_self (h : tmdbId &&& kindBit = 0) : tmdbId &&& ~~~kindBit = tmdbId := by
  refine Int64.toBitVec_inj.mp ?_
  rw [toBitVec_and_not_kindBit, clear_eq_self (and_kindBit_eq_zero.mp h)]

theorem or_kindBit_eq_self (h : tmdbId &&& kindBit ≠ 0) : tmdbId ||| kindBit = tmdbId := by
  refine Int64.toBitVec_inj.mp ?_
  rw [toBitVec_or_kindBit, set_eq_self (and_kindBit_ne_zero.mp h)]

theorem or_and_not_kindBit (h : tmdbId &&& kindBit = 0) :
    (tmdbId ||| kindBit) &&& ~~~kindBit = tmdbId := by
  refine Int64.toBitVec_inj.mp ?_
  rw [toBitVec_and_not_kindBit, toBitVec_or_kindBit, clear_set (and_kindBit_eq_zero.mp h)]

theorem and_not_or_kindBit (h : rowid &&& kindBit ≠ 0) :
    rowid &&& ~~~kindBit ||| kindBit = rowid := by
  refine Int64.toBitVec_inj.mp ?_
  rw [toBitVec_or_kindBit, toBitVec_and_not_kindBit, set_clear (and_kindBit_ne_zero.mp h)]

theorem and_kindBit_eq_zero_of_nonneg (h : tmdbId < kindBit) (hnonneg : 0 ≤ tmdbId) :
    tmdbId &&& kindBit = 0 := by
  rw [Int64.lt_iff_toInt_lt, toInt_kindBit] at h
  rw [Int64.le_iff_toInt_le, Int64.toInt_zero] at hnonneg
  rw [and_kindBit_eq_zero, ← Bool.not_eq_true, tagged_iff]
  omega

theorem or_kindBit_neg_iff : tmdbId ||| kindBit < 0 ↔ tmdbId < 0 := by
  have hsign : ∀ x : Int64, x < 0 ↔ x.toBitVec.msb = true := by
    intro x
    rw [Int64.lt_iff_toInt_lt, Int64.toInt_zero, BitVec.msb_eq_toInt, decide_eq_true_iff]
    rfl
  rw [hsign, hsign, Int64.toBitVec_or, BitVec.msb_or, toBitVec_kindBit]
  simp

/-- **A show's row is a film's where the identifier is negative**, and only there. -/
theorem or_kindBit_lt : tmdbId ||| kindBit < kindBit ↔ tmdbId < 0 := by
  rw [← or_kindBit_neg_iff]
  constructor
  · intro h
    by_contra hneg
    refine or_kindBit_and_ne_zero (and_kindBit_eq_zero_of_nonneg h (?_ : 0 ≤ tmdbId ||| kindBit))
    rw [Int64.lt_iff_toInt_lt] at hneg
    rw [Int64.le_iff_toInt_le]
    omega
  · intro h
    rw [Int64.lt_iff_toInt_lt, Int64.toInt_zero] at h
    rw [Int64.lt_iff_toInt_lt, toInt_kindBit]
    omega

/-! ### What is accepted -/

theorem tv_eq_ok {b : Bool} :
    tv kind = .ok b ↔ kind = "movie" ∧ b = false ∨ kind = "tv" ∧ b = true := by
  unfold tv
  split
  · simp [eq_comm]
  · simp [eq_comm]
  · next hmovie htv =>
    have hm : kind ≠ "movie" := hmovie
    have ht : kind ≠ "tv" := htv
    simp [hm, ht]

/-- **What is accepted, and what it becomes.** -/
theorem encodeVecRowid_eq_ok : encodeVecRowid kind tmdbId = .ok rowid ↔ tmdbId < kindBit ∧
    (kind = "movie" ∧ rowid = tmdbId ∨ kind = "tv" ∧ rowid = tmdbId ||| kindBit) := by
  have hlt : tmdbId < kindBit ↔ ¬ kindBit ≤ tmdbId := by
    rw [Int64.lt_iff_toInt_lt, Int64.le_iff_toInt_le]
    omega
  constructor
  · intro h
    rw [encodeVecRowid] at h
    cases htv : tv kind with
    | error => rw [htv] at h; cases h
    | ok b =>
      rw [htv] at h
      by_cases hle : kindBit ≤ tmdbId
      · simp [bind, Except.bind, hle] at h
      · rcases tv_eq_ok.mp htv with ⟨hkind, rfl⟩ | ⟨hkind, rfl⟩
        · simp only [bind, Except.bind, hle, if_false, Except.ok.injEq] at h
          exact ⟨hlt.mpr hle, .inl ⟨hkind, h.symm⟩⟩
        · simp only [bind, Except.bind, hle, if_false, if_true, Except.ok.injEq] at h
          exact ⟨hlt.mpr hle, .inr ⟨hkind, h.symm⟩⟩
  · rintro ⟨h, ⟨rfl, rfl⟩ | ⟨rfl, rfl⟩⟩
    · simp [encodeVecRowid, tv, bind, Except.bind, hlt.mp h]
    · simp [encodeVecRowid, tv, bind, Except.bind, hlt.mp h]

theorem decodeVecRowid_none_eq_ok : decodeVecRowid rowid none = .ok (kind, tmdbId) ↔
    (rowid &&& kindBit ≠ 0 ∧ kind = "tv" ∨ rowid &&& kindBit = 0 ∧ kind = "movie") ∧
      tmdbId = rowid &&& ~~~kindBit := by
  by_cases h : rowid &&& kindBit = 0
  · simp [decodeVecRowid, h, eq_comm]
  · simp [decodeVecRowid, h, eq_comm]

/-! ### Whose a rowid is -/

/-- **The row is this title's alone**: it is read back, and nothing of another kind has it. -/
structure Own (kind : String) (tmdbId rowid : Int64) : Prop where
  back : decodeVecRowid rowid none = .ok (kind, tmdbId)
  alone : ∀ kind' tmdbId', encodeVecRowid kind' tmdbId' = .ok rowid → kind' = kind

/-- A show's identifier is not negative; a film's does not have the bit. -/
def Apart (kind : String) (tmdbId : Int64) : Prop :=
  if kind = "tv" then 0 ≤ tmdbId else tmdbId &&& kindBit = 0

instance : Decidable (Apart kind tmdbId) :=
  inferInstanceAs (Decidable (if kind = "tv" then 0 ≤ tmdbId else tmdbId &&& kindBit = 0))

/-- **A title's row is its own where the identifier keeps clear of the bit**, and only there. -/
theorem own_iff_apart (h : encodeVecRowid kind tmdbId = .ok rowid) :
    Own kind tmdbId rowid ↔ Apart kind tmdbId := by
  obtain ⟨hlt, ⟨rfl, rfl⟩ | ⟨rfl, rfl⟩⟩ := encodeVecRowid_eq_ok.mp h
  · -- a film's row is its identifier
    rw [Apart, if_neg (by decide)]
    constructor
    · rintro ⟨hback, -⟩
      rcases (decodeVecRowid_none_eq_ok.mp hback).1 with ⟨-, hkind⟩ | ⟨hzero, -⟩
      · exact absurd hkind (by decide)
      · exact hzero
    · intro hzero
      refine ⟨decodeVecRowid_none_eq_ok.mpr
        ⟨.inr ⟨hzero, rfl⟩, (and_not_kindBit_eq_self hzero).symm⟩, fun kind' tmdbId' h' => ?_⟩
      obtain ⟨-, ⟨hkind, -⟩ | ⟨-, rfl⟩⟩ := encodeVecRowid_eq_ok.mp h'
      · exact hkind
      · exact absurd hzero or_kindBit_and_ne_zero
  · -- a show's row may be accepted as a film's
    rw [Apart, if_pos rfl]
    constructor
    · rintro ⟨-, halone⟩
      by_contra hneg
      have hneg : tmdbId < 0 := by
        rw [Int64.le_iff_toInt_le] at hneg
        rw [Int64.lt_iff_toInt_lt]
        omega
      have hfilm := halone "movie" (tmdbId ||| kindBit)
        (encodeVecRowid_eq_ok.mpr ⟨or_kindBit_lt.mpr hneg, .inl ⟨rfl, rfl⟩⟩)
      exact absurd hfilm (by decide)
    · intro hnonneg
      have hzero := and_kindBit_eq_zero_of_nonneg hlt hnonneg
      refine ⟨decodeVecRowid_none_eq_ok.mpr
        ⟨.inl ⟨or_kindBit_and_ne_zero, rfl⟩, (or_and_not_kindBit hzero).symm⟩,
        fun kind' tmdbId' h' => ?_⟩
      obtain ⟨hlt', ⟨-, rfl⟩ | ⟨hkind, -⟩⟩ := encodeVecRowid_eq_ok.mp h'
      · have hneg := or_kindBit_lt.mp hlt'
        rw [Int64.le_iff_toInt_le] at hnonneg
        rw [Int64.lt_iff_toInt_lt] at hneg
        omega
      · exact hkind

/-- **What a row is read as becomes that row**, where the identifier is accepted. -/
theorem encodeVecRowid_of_decodeVecRowid (h : decodeVecRowid rowid none = .ok (kind, tmdbId))
    (hlt : tmdbId < kindBit) : encodeVecRowid kind tmdbId = .ok rowid := by
  obtain ⟨⟨hbit, rfl⟩ | ⟨hbit, rfl⟩, rfl⟩ := decodeVecRowid_none_eq_ok.mp h
  · exact encodeVecRowid_eq_ok.mpr ⟨hlt, .inr ⟨rfl, (and_not_or_kindBit hbit).symm⟩⟩
  · exact encodeVecRowid_eq_ok.mpr ⟨hlt, .inl ⟨rfl, (and_not_kindBit_eq_self hbit).symm⟩⟩

/-! ### As numbers -/

theorem toInt_or_kindBit (h : tmdbId &&& kindBit = 0) (hlt : tmdbId < kindBit) :
    (tmdbId ||| kindBit).toInt = tmdbId.toInt + 2 ^ 32 := by
  have hadd : tmdbId ||| kindBit = tmdbId + kindBit := by
    refine Int64.toBitVec_inj.mp ?_
    rw [toBitVec_or_kindBit, Int64.toBitVec_add, toBitVec_kindBit,
      set_eq_add (and_kindBit_eq_zero.mp h)]
  rw [Int64.lt_iff_toInt_lt, toInt_kindBit] at hlt
  have hle := tmdbId.le_toInt
  rw [hadd, Int64.toInt_add, toInt_kindBit]
  exact Int.bmod_eq_of_le (by omega) (by omega)

theorem toInt_and_not_kindBit (h : rowid &&& kindBit ≠ 0) :
    (rowid &&& ~~~kindBit).toInt = rowid.toInt - 2 ^ 32 := by
  have hclear : tagged 32 (clear 32 rowid.toBitVec) = false := tagged_clear (by decide)
  have hadd : rowid &&& ~~~kindBit = rowid - kindBit := by
    refine (Int64.sub_eq_iff_eq_add.mpr (Int64.toBitVec_inj.mp ?_)).symm
    rw [Int64.toBitVec_add, toBitVec_and_not_kindBit, toBitVec_kindBit, ← set_eq_add hclear,
      set_clear (and_kindBit_ne_zero.mp h)]
  have hodd := (tagged_iff rowid).mp (and_kindBit_ne_zero.mp h)
  have hle := rowid.le_toInt
  have hlt := rowid.toInt_lt
  rw [hadd, Int64.toInt_sub, toInt_kindBit]
  exact Int.bmod_eq_of_le (by omega) (by omega)

/-- **The rowid is the one that the tables are keyed by.** -/
theorem encodeVecRowid_toInt (kind : Kind) (tmdbId : Int64) :
    (encodeVecRowid kind.asStr tmdbId).toOption.map Int64.toInt =
      Featurize.encodeVecRowid ⟨kind, tmdbId.toInt⟩ := by
  have hle : Featurize.kindBit ≤ tmdbId.toInt ↔ ¬ tmdbId < kindBit := by
    rw [Int64.lt_iff_toInt_lt, toInt_kindBit, not_lt]
    rfl
  have hodd : tmdbId.toInt / Featurize.kindBit % 2 = 1 ↔ tmdbId &&& kindBit ≠ 0 :=
    (tagged_iff tmdbId).symm.trans and_kindBit_ne_zero.symm
  rw [Featurize.encodeVecRowid]
  by_cases hlt : tmdbId < kindBit
  · rw [if_neg (by rw [hle]; exact not_not.mpr hlt)]
    cases kind with
    | movie =>
      rw [Kind.asStr, encodeVecRowid_eq_ok.mpr ⟨hlt, .inl ⟨rfl, rfl⟩⟩]
      rfl
    | tv =>
      rw [Kind.asStr, encodeVecRowid_eq_ok.mpr ⟨hlt, .inr ⟨rfl, rfl⟩⟩]
      by_cases hbit : tmdbId &&& kindBit = 0
      · rw [if_neg (by rw [hodd]; exact not_not.mpr hbit)]
        exact congrArg some (toInt_or_kindBit hbit hlt)
      · rw [if_pos (hodd.mpr hbit), or_kindBit_eq_self hbit]
        rfl
  · -- nothing is accepted
    rw [if_pos (hle.mpr hlt)]
    cases h : encodeVecRowid kind.asStr tmdbId with
    | error => rfl
    | ok rowid => exact absurd (encodeVecRowid_eq_ok.mp h).1 hlt

/-- **What a row is read as is what the neighbours are read as.** -/
theorem decodeVecRowid_toInt (kind : Kind) (rowid : Int64) :
    (decodeVecRowid rowid (some kind.asStr)).toOption.map (fun p => p.2.toInt) =
      Recommender.decodeVecRowid rowid.toInt kind := by
  have hodd : rowid.toInt / Recommender.kindBit % 2 = 1 ↔ rowid &&& kindBit ≠ 0 :=
    (tagged_iff rowid).symm.trans and_kindBit_ne_zero.symm
  by_cases hbit : rowid &&& kindBit = 0
  · have heven := mt hodd.mp (not_not.mpr hbit)
    cases kind with
    | movie =>
      simp only [Recommender.decodeVecRowid, heven, if_false, decodeVecRowid, hbit]
      rw [and_not_kindBit_eq_self hbit]
      rfl
    | tv =>
      simp only [Recommender.decodeVecRowid, heven, if_false, decodeVecRowid, hbit]
      rfl
  · have hodd := hodd.mpr hbit
    cases kind with
    | movie =>
      simp only [Recommender.decodeVecRowid, hodd, if_true, decodeVecRowid]
      rw [if_pos hbit]
      rfl
    | tv =>
      simp only [Recommender.decodeVecRowid, hodd, if_true, decodeVecRowid]
      rw [if_pos hbit]
      exact congrArg some (toInt_and_not_kindBit hbit)

/-! ### Every rowid -/

/-- **A title's row is its own exactly where the identifier keeps clear of the bit**; a row that is
read as an accepted identifier is the row of that. -/
theorem vecRowid_own (kind : String) (tmdbId : Int64) :
    (∀ rowid, encodeVecRowid kind tmdbId = .ok rowid →
      (Own kind tmdbId rowid ↔ Apart kind tmdbId)) ∧
    ∀ rowid, decodeVecRowid rowid none = .ok (kind, tmdbId) → tmdbId < kindBit →
      encodeVecRowid kind tmdbId = .ok rowid :=
  ⟨fun _ => own_iff_apart, fun _ => encodeVecRowid_of_decodeVecRowid⟩

theorem vecRowid_own_show : Own "tv" 1399 4294968695 :=
  ((vecRowid_own "tv" 1399).1 4294968695 (by decide)).mpr (by decide)

/-- A film and a show share a row, and neither is read back. -/
theorem not_own_neg :
    encodeVecRowid "movie" (-1) = .ok (-1) ∧ encodeVecRowid "tv" (-1) = .ok (-1) ∧
      decodeVecRowid (-1) none = .ok ("tv", -4294967297) := by
  decide

end EmeraldExchange.Recommender.VecRowid
