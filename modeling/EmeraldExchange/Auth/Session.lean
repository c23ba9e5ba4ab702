import Mathlib.Algebra.GroupWithZero.Nat
import Mathlib.Order.Lattice
import Mathlib.Data.List.TakeWhile
import EmeraldExchange.Auth.Db

/-!
# The session cookie

How the routes read texts and headers, and the cookie that keeps a browser signed in.

A cookie holds an encrypted token, whose claims name the subject, a role and the provider, and the
times between which it holds. What decrypts it is third-party code; of the floats that its times
are read as, only their order is used.
-/

namespace EmeraldExchange.Auth

open Contracts

structure Session where
  sub : String
  username : String
  role : Role
  authMode : AuthMode
  /-- The user's plex.tv token (Plex sign-in only). -/
  plexAuthToken : Option String
  deriving DecidableEq

/-! ### Texts as the routes read them -/

/-- Unicode `White_Space`. -/
def whiteSpace (c : Char) : Bool :=
  (0x9 ≤ c.toNat && c.toNat ≤ 0xd) || (0x2000 ≤ c.toNat && c.toNat ≤ 0x200a) ||
    c.toNat ∈ [0x20, 0x85, 0xa0, 0x1680, 0x2028, 0x2029, 0x202f, 0x205f, 0x3000]

def jsSpace (c : Char) : Bool := c.toNat = 0xfeff || (whiteSpace c && c.toNat ≠ 0x85)

def trimMatches {α : Type} (p : α → Bool) (l : List α) : List α :=
  ((l.dropWhile p).reverse.dropWhile p).reverse

theorem exists_trim {α : Type} (p : α → Bool) (l : List α) : ∃ x y,
    l = x ++ (trimMatches p l ++ y) ∧ (∀ a ∈ x, p a = true) ∧ ∀ a ∈ y, p a = true := by
  refine ⟨l.takeWhile p, ((l.dropWhile p).reverse.takeWhile p).reverse, ?_,
    fun a ha => List.mem_takeWhile_imp ha,
    fun a ha => List.mem_takeWhile_imp (List.mem_reverse.mp ha)⟩
  rw [trimMatches, ← List.reverse_append, List.takeWhile_append_dropWhile, List.reverse_reverse,
    List.takeWhile_append_dropWhile]

theorem trimMatches_of_forall {α : Type} {p : α → Bool} {l : List α}
    (h : ∀ a ∈ l, p a = false) : trimMatches p l = l := by
  have hdrop : ∀ m : List α, (∀ a ∈ m, p a = false) → m.dropWhile p = m := by
    rintro (_ | ⟨a, m⟩) hm
    · rfl
    · exact List.dropWhile_cons_of_neg (by simp [hm a List.mem_cons_self])
  rw [trimMatches, hdrop l h, hdrop _ fun a ha => h a (List.mem_reverse.mp ha),
    List.reverse_reverse]

/-- `String#trim` -/
def jsTrim (s : String) : String := String.ofList (trimMatches jsSpace s.toList)

/-- `String#length`: UTF-16 code units. -/
def jsLen (s : String) : ℕ := (s.toList.map fun c => if c.toNat ≤ 0xffff then 1 else 2).sum

/-! ### Headers -/

/-- The headers of a request, in their order: lower-case names, and bytes. -/
abbrev HeaderMap := List (String × List UInt8)

def HeaderMap.get (headers : HeaderMap) (name : String) : Option (List UInt8) :=
  (headers.find? fun h => h.1 = name).map Prod.snd

def HeaderMap.getAll (headers : HeaderMap) (name : String) : List (List UInt8) :=
  (headers.filter fun h => h.1 = name).map Prod.snd

/-- The text of a value, if it is visible ASCII. -/
def headerText (value : List UInt8) : Option (List Char) :=
  if value.all fun b => (32 ≤ b && b < 127) || b = 9 then
    some (value.map fun b => Char.ofNat b.toNat)
  else none

def validCookie (v : List Char) : Bool :=
  v.all fun c => c = ' ' || c = '!' || ('#' ≤ c && c ≤ ':') || ('<' ≤ c && c ≤ '[') ||
    (']' ≤ c && c ≤ '~')

def blank (c : Char) : Bool := c = ' ' || c = '\t'

/-- Drop the quotes around a value, if it has both. -/
def unquote (v : List Char) : List Char :=
  match v with
  | '"' :: rest => if rest.getLast? = some '"' then rest.dropLast else v
  | _ => v

/-- **A cookie by name**: the first pair of that name whose value is well-formed. -/
def readNamedCookie (headers : HeaderMap) (name : List Char) : Option (List Char) :=
  let pairs := ((headers.getAll "cookie").filterMap headerText).flatMap (·.splitOn ';')
  let named := pairs.filter fun pair =>
    '=' ∈ pair && trimMatches blank (pair.takeWhile (· ≠ '=')) = name
  let values := named.map fun pair =>
    unquote (trimMatches blank (pair.drop ((pair.takeWhile (· ≠ '=')).length + 1)))
  values.find? validCookie

def readCookie (headers : HeaderMap) : Option String :=
  (readNamedCookie headers "eex.session".toList).map String.ofList

/-! ### The claims of a cookie -/

/-- A JSON value, as far as a cookie's are read. -/
inductive ClaimValue (F : Type)
  | text (s : String)
  | number (x : F)
  | other

def ClaimValue.asStr {F : Type} : ClaimValue F → Option String
  | .text s => some s
  | _ => none

def ClaimValue.asF64 {F : Type} : ClaimValue F → Option F
  | .number x => some x
  | _ => none

abbrev ClaimMap (F : Type) := String → Option (ClaimValue F)

/-- **What third-party code does with a cookie**: read its header, decrypt it under the session
key, and turn times into floats. -/
structure CookieJwe (F : Type) where
  header : String → Option (ClaimMap F)
  claims : String → Option (ClaimMap F)
  ofInt : ℤ → F

def date {F : Type} (claims : ClaimMap F) (k : String) : Option (Option F) :=
  match claims k with
  | none => some none
  | some v => v.asF64.map some

/-- **Verify a cookie's value** at a time. -/
def sessionVerify {F : Type} [LinearOrder F] (jwe : CookieJwe F) (token : String) (now : ℤ) :
    Option Session := do
  let header ← jwe.header token
  let field (k : String) : Option String := (header k).bind (·.asStr)
  if field "alg" ≠ some "dir" ∨ field "enc" ≠ some "A256GCM" ∨
      (header "kid").any (fun k => k.asStr ≠ some "session-v1") ∨
      (header "zip").isSome ∨ (header "crit").isSome then none
  let claims ← jwe.claims token
  let _iat ← date claims "iat"
  let nbf ← date claims "nbf"
  let exp ← (← date claims "exp")
  if exp ≤ jwe.ofInt now ∨ nbf.any (jwe.ofInt now < ·) then none
  let text (k : String) : Option String := (claims k).bind (·.asStr)
  let sub ← (parseSub (← text "sub")).toOption
  let username ← text "username"
  let role ← Role.parse (← text "role")
  let authMode ← AuthMode.parse (← text "auth_mode")
  some ⟨sub.raw, username, role, authMode, (text "plexAuthToken").filter (· ≠ "")⟩

end EmeraldExchange.Auth
