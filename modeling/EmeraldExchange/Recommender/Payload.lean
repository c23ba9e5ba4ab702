import EmeraldExchange.Auth.Session
import EmeraldExchange.Lib.Binary64
import EmeraldExchange.Lib.JsonTree

/-!
# What the service sends

The ingest reads what the service sends as the program before it did, which was written in another
language: an empty list is as good as none, a number may be written as a text, and what is there but
is not of the right kind is an error that names it. The database is handed a few kinds of values
only.
-/

namespace EmeraldExchange.Recommender.Payload

open Auth (trimMatches whiteSpace)

inductive Invalid
  | notObject (v : JsonTree)
  | notList (key : String) (v : JsonTree)
  | notInteger (v : JsonTree)
  | outOfRange (v : JsonTree)
  | cannotBind (v : JsonTree)
  | releaseDate (v : JsonTree)
  | episodeRunTime (v : JsonTree)
  | noId

/-- The text of an error, given how a value is written. -/
def Invalid.text (json : JsonTree → String) : Invalid → String
  | .notObject v => s!"expected an object, got {json v}"
  | .notList key v => s!"{key} is not a list: {json v}"
  | .notInteger v => s!"not an integer: {json v}"
  | .outOfRange v => s!"integer out of range: {json v}"
  | .cannotBind v => s!"cannot bind {json v}"
  | .releaseDate v => s!"release date is not a string: {json v}"
  | .episodeRunTime v => s!"bad episode_run_time {json v}"
  | .noId => "detail has no id"

/-! ### What counts as true -/

def truthyValue : JsonTree → Bool
  | .null => false
  | .bool b => b
  | .int z => Binary64.ofRat z ≠ .finite 0
  | .float q => Binary64.ofRat q ≠ .finite 0
  | .str s => s ≠ ""
  | .arr vs => !vs.isEmpty
  | .obj ms => !ms.isEmpty

def truthy (v : Option JsonTree) : Bool := v.any truthyValue

def or (a b : Option JsonTree) : Option JsonTree := if truthy a then a else b

/-! ### What is read -/

def object : JsonTree → Except Invalid (List (String × JsonTree))
  | .obj ms => .ok ms
  | v => .error (.notObject v)

/-- A list, or none; `key` is what it is called. -/
def list (key : String) (v : Option JsonTree) : Except Invalid (List JsonTree) :=
  match v.filter truthyValue with
  | none => .ok []
  | some (.arr vs) => .ok vs
  | some v => .error (.notList key v)

/-- **`list_or_empty`** -/
def listOrEmpty (obj : JsonTree) (key : String) : Except Invalid (List JsonTree) :=
  list key (obj.get key)

/-- A number that is not an integer of 64 bits, without its fraction. -/
def truncated (v : JsonTree) : Binary64 → Except Invalid ℤ
  | .finite q =>
    if |q| < 9200000000000000000 then .ok (q.num.tdiv q.den) else .error (.notInteger v)
  | _ => .error (.notInteger v)

/-- `trim().parse::<i64>()` -/
def parseI64 (s : String) : Option ℤ :=
  (Decimal.integer (trimMatches whiteSpace s.toList)).filter fun z => -2 ^ 63 ≤ z ∧ z < 2 ^ 63

/-- **`py_int`** -/
def pyInt (v : JsonTree) : Except Invalid ℤ :=
  match v with
  | .bool b => .ok (if b then 1 else 0)
  | .int z => if -2 ^ 63 ≤ z ∧ z < 2 ^ 63 then .ok z else truncated v (.ofRat z)
  | .float q => truncated v (.ofRat q)
  | .str s => match parseI64 s with
    | some z => .ok z
    | none => .error (.notInteger v)
  | _ => .error (.notInteger v)

theorem natAbs_tdiv_lt {q : ℚ} {n : ℕ} (h : |q| < n) : (q.num.tdiv q.den).natAbs < n := by
  have hden : (0 : ℚ) < q.den := by exact_mod_cast q.pos
  have hlt : q.num.natAbs < q.den * n := by
    rw [← Rat.num_div_den q, abs_div, abs_of_pos hden, div_lt_iff₀ hden] at h
    rw [← Int.cast_abs, Int.abs_eq_natAbs] at h
    rw [mul_comm]
    exact_mod_cast h
  rw [Int.natAbs_tdiv, Int.natAbs_natCast]
  exact Nat.div_lt_of_lt_mul hlt

/-- **What is read is an integer of 64 bits.** -/
theorem pyInt_bounds {v : JsonTree} {z : ℤ} (h : pyInt v = .ok z) : -2 ^ 63 ≤ z ∧ z < 2 ^ 63 := by
  have htrunc : ∀ x, truncated v x = .ok z → -2 ^ 63 ≤ z ∧ z < 2 ^ 63 := by
    intro x hx
    rcases x with _ | s | q
    · cases hx
    · cases hx
    · rw [truncated] at hx
      split at hx
      · next hq =>
        obtain rfl := Except.ok.inj hx
        have hbound := natAbs_tdiv_lt (n := 9200000000000000000) (by exact_mod_cast hq)
        omega
      · cases hx
  rcases v with _ | b | z' | q | s | vs | ms
  · cases h
  · -- a truth value
    obtain rfl := Except.ok.inj h
    cases b
    · decide
    · decide
  · rw [pyInt] at h
    split at h
    · next hz =>
      obtain rfl := Except.ok.inj h
      exact hz
    · exact htrunc _ h
  · exact htrunc _ h
  · rw [pyInt] at h
    split at h
    · next hs =>
      obtain rfl := Except.ok.inj h
      exact of_decide_eq_true (Option.filter_eq_some_iff.mp hs).2
    · cases h
  · cases h
  · cases h

/-! ### What is handed to the database -/

inductive Value
  | int (z : ℤ)
  | real (x : Binary64)
  | text (s : String)
  deriving DecidableEq

abbrev Arg := Option Value

/-- **`arg`**. A number that is too large for 64 bits is read as a double before. -/
def arg (v : Option JsonTree) : Except Invalid Arg :=
  match v with
  | none | some .null => .ok none
  | some (.bool b) => .ok (some (.int (if b then 1 else 0)))
  | some (.int z) =>
    if -2 ^ 63 ≤ z ∧ z < 2 ^ 63 then .ok (some (.int z))
    else if 0 ≤ z ∧ z < 2 ^ 64 then .error (.outOfRange (.int z))
    else .ok (some (.real (.ofRat z)))
  | some (.float q) => .ok (some (.real (.ofRat q)))
  | some (.str s) => .ok (some (.text s))
  | some v => .error (.cannotBind v)

/-- **`flatten_year`**: the number that the first four characters are. -/
def flattenYear (release : Option JsonTree) : Except Invalid (Option ℤ) :=
  match release.filter truthyValue with
  | none => .ok none
  | some (.str s) =>
    .ok (if s.toList.length < 4 then none else parseI64 (String.ofList (s.toList.take 4)))
  | some v => .error (.releaseDate v)

theorem isSome_of_arg {v : Option JsonTree} {a : Arg} (htrue : truthy v = true)
    (h : arg v = .ok a) : a.isSome = true := by
  rcases v with _ | v
  · cases htrue
  rcases v with _ | b | z | q | s | vs | ms
  · cases htrue
  · obtain rfl := Except.ok.inj h
    rfl
  · rw [arg] at h
    split at h
    · obtain rfl := Except.ok.inj h
      rfl
    · split at h
      · cases h
      · obtain rfl := Except.ok.inj h
        rfl
  · obtain rfl := Except.ok.inj h
    rfl
  · obtain rfl := Except.ok.inj h
    rfl
  · cases h
  · cases h

end EmeraldExchange.Recommender.Payload
