import Mathlib.Algebra.BigOperators.Group.List.Lemmas
import Mathlib.Algebra.Order.BigOperators.Group.List
import Mathlib.Algebra.Ring.Int.Defs
import EmeraldExchange.Lib.Runs
import EmeraldExchange.Lib.Table

/-!
# The ledger of disk reservations

`crates/gateway/src/arr/shared.rs`: the bytes that grabs in flight have been promised, for each
root folder. A grab reserves its planned bytes if that keeps the folder above a floor, and the
value that it holds (`Held`) releases them when the grab ends, however it ends. What a grab
never releases expires.

The entries of a folder are anonymous amounts. `Ledger.release` drops
the entry of exactly the amount, and where there is none it takes the amount from the oldest
entries. So a release is right only if the entry it meets is its own
(`Disk.MeetsOwn`); a release that comes after its own entry has expired
takes what another grab has reserved.

Amounts are exact integers and times are readings of one clock that does not go back.
-/

namespace EmeraldExchange.Gateway

/-- A root folder's free space as it was reported. -/
structure Folder where
  path : String
  freeSpace : ℤ
  deriving DecidableEq

/-- A reservation. The source does not record by which grab it was made, and no function of
the ledger reads `grab`: it is there so that one can say whose a reservation is. -/
structure Entry where
  bytes : ℤ
  expires : ℕ
  grab : ℕ
  deriving DecidableEq

/-- **The ledger** of one app. -/
structure Ledger where
  minFree : ℤ
  ttl : ℕ
  pending : Table String (List Entry)

def total (es : List Entry) : ℤ := (es.map Entry.bytes).sum

def unexpired (now : ℕ) (es : List Entry) : List Entry := es.filter fun e => now < e.expires

/-- Take an amount from the oldest entries, floored at zero. -/
def trim : ℤ → List Entry → List Entry
  | _, [] => []
  | remaining, e :: es =>
    if remaining ≤ 0 then e :: es
    else if e.bytes ≤ remaining then trim (remaining - e.bytes) es
    else { e with bytes := e.bytes - remaining } :: es

/-- The entries after a release: without the entry of exactly that amount, else trimmed. -/
def releaseFrom (bytes : ℤ) (es : List Entry) : List Entry :=
  if es.any (·.bytes = bytes) then es.eraseP (·.bytes = bytes) else trim bytes es

namespace Ledger

variable (l : Ledger)

def withTtl (minFree : ℤ) (ttl : ℕ) : Ledger := ⟨minFree, ttl, ∅⟩

def entries (path : String) : List Entry := (l.pending.lookup path).getD []

/-- Put the entries of a folder in place; a folder without any has no key. -/
def put (path : String) (es : List Entry) : Ledger :=
  { l with pending := if es = [] then l.pending.erase path else l.pending.insert path es }

/-- The bytes of the live entries of a folder, the expired ones dropped. -/
def live (now : ℕ) (path : String) : ℤ × Ledger :=
  match l.pending.lookup path with
  | none => (0, l)
  | some es => (total (unexpired now es), l.put path (unexpired now es))

def pendingBytes (now : ℕ) (f : Folder) : ℤ × Ledger := l.live now f.path

def availableBytes (now : ℕ) (f : Folder) : ℤ × Ledger :=
  let (pending, l) := l.pendingBytes now f
  (f.freeSpace - pending, l)

/-- **Reserve an amount** if that keeps the folder above the floor. The clock is read once for
the live entries, at `now`, and again for the new one, at `later`. -/
def reserve (now later grab : ℕ) (f : Folder) (bytes : ℤ) : Bool × Ledger :=
  if bytes ≤ 0 then (false, l)
  else
    let (reserved, l) := l.live now f.path
    if f.freeSpace - reserved - bytes < l.minFree then (false, l)
    else
      let e : Entry := { bytes := bytes, expires := later + l.ttl, grab := grab }
      (true, { l with pending := l.pending.insert f.path (l.entries f.path ++ [e]) })

/-- **Release an amount.** -/
def release (now : ℕ) (f : Folder) (bytes : ℤ) : Ledger :=
  if bytes ≤ 0 then l
  else
    let l := (l.live now f.path).2
    match l.pending.lookup f.path with
    | none => l
    | some es => l.put f.path (releaseFrom bytes es)

/-! ### What the operations do to the entries of their folder -/

variable {l}

@[simp] theorem entries_withTtl (minFree : ℤ) (ttl : ℕ) (path : String) :
    (withTtl minFree ttl).entries path = [] := rfl

@[simp] theorem entries_put (path : String) (es : List Entry) :
    (l.put path es).entries path = es := by
  unfold entries put
  split_ifs with h
  · rw [AList.lookup_erase, h, Option.getD_none]
  · rw [AList.lookup_insert, Option.getD_some]

@[simp] theorem minFree_live (now : ℕ) (path : String) :
    (l.live now path).2.minFree = l.minFree := by
  unfold live
  split <;> rfl

@[simp] theorem ttl_live (now : ℕ) (path : String) : (l.live now path).2.ttl = l.ttl := by
  unfold live
  split <;> rfl

@[simp] theorem fst_live (now : ℕ) (path : String) :
    (l.live now path).1 = total (unexpired now (l.entries path)) := by
  unfold live entries
  split
  next h => simp [h, total, unexpired]
  next es h => simp [h]

@[simp] theorem entries_live (now : ℕ) (path : String) :
    (l.live now path).2.entries path = unexpired now (l.entries path) := by
  unfold live
  split
  next h => simp [entries, h, unexpired]
  next es h => rw [entries_put, entries, h, Option.getD_some]

/-- **What a reservation does**: it is refused and only drops what has expired, or it adds one
entry, and then the folder stays above the floor. -/
theorem reserve_cases (l : Ledger) (now later grab : ℕ) (f : Folder) (bytes : ℤ) :
    ((l.reserve now later grab f bytes).1 = false ∧
      ((l.reserve now later grab f bytes).2.entries f.path = l.entries f.path ∨
        (l.reserve now later grab f bytes).2.entries f.path = unexpired now (l.entries f.path))) ∨
    ((l.reserve now later grab f bytes).1 = true ∧ 0 < bytes ∧
      l.minFree ≤ f.freeSpace - total (unexpired now (l.entries f.path)) - bytes ∧
      (l.reserve now later grab f bytes).2.entries f.path =
        unexpired now (l.entries f.path) ++ [⟨bytes, later + l.ttl, grab⟩]) := by
  unfold reserve
  by_cases hpos : bytes ≤ 0
  · exact Or.inl (by simp [hpos])
  · by_cases hfloor : f.freeSpace - total (unexpired now (l.entries f.path)) - bytes < l.minFree
    · exact Or.inl (by simp [hpos, hfloor])
    · refine Or.inr ⟨by simp [hpos, hfloor], by omega, by omega, ?_⟩
      simp only [hpos, if_false, fst_live, minFree_live, hfloor, ttl_live]
      rw [entries, AList.lookup_insert, Option.getD_some, entries_live]

theorem entries_release {bytes : ℤ} (hpos : 0 < bytes) (now : ℕ) (f : Folder) :
    (l.release now f bytes).entries f.path =
      releaseFrom bytes (unexpired now (l.entries f.path)) := by
  rw [release, if_neg (not_le.mpr hpos)]
  cases h : (l.live now f.path).2.pending.lookup f.path with
  | none =>
    have hnil : unexpired now (l.entries f.path) = [] := by
      rw [← entries_live, entries, h, Option.getD_none]
    simp only [h, entries_live, hnil]
    rfl
  | some es =>
    have hes : unexpired now (l.entries f.path) = es := by
      rw [← entries_live, entries, h, Option.getD_some]
    simp only [h, entries_put, hes]

end Ledger

end EmeraldExchange.Gateway
