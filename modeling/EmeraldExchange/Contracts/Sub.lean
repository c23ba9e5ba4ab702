import Mathlib.Data.List.Basic

/-!
# Subjects

A subject names its provider and the provider's id for it, with a colon between. The five
providers have each a grammar of their own, which a regular expression of the contract states.
-/

namespace EmeraldExchange.Contracts

inductive Provider
  | plex | «local» | apple | google | workos
  deriving DecidableEq

structure Sub where
  provider : Provider
  id : String
  /-- Full namespaced form. -/
  raw : String
  deriving DecidableEq

inductive SubError
  | unprefixed
  | unknownProvider
  | invalidFormat
  deriving DecidableEq

/-- `[0-9A-HJKMNP-TV-Z]` -/
def isUlidChar (c : Char) : Bool :=
  c.isDigit || ('A' ≤ c && c ≤ 'H') || c ∈ ['J', 'K', 'M', 'N'] || ('P' ≤ c && c ≤ 'T') ||
    ('V' ≤ c && c ≤ 'Z')

/-- `[0-9A-HJKMNP-TV-Z]{26}` -/
def isUlid (id : List Char) : Bool := id.length = 26 && id.all isUlidChar

/-- What follows `plex:`: `0|[1-9][0-9]*`. -/
def plexId (id : List Char) : Bool :=
  id = ['0'] || (id.all Char.isDigit && id ≠ [] && id.head? ≠ some '0')

/-- What follows `apple:`: `[0-9]{6}\.[0-9a-f]{32}\.[0-9]{4}`. -/
def appleId (id : List Char) : Bool :=
  id.length = 44 && (id.take 6).all Char.isDigit && id[6]? = some '.' &&
    ((id.drop 7).take 32).all (fun c => c.isDigit || ('a' ≤ c && c ≤ 'f')) &&
    id[39]? = some '.' && (id.drop 40).all Char.isDigit

/-- What follows `google:`: `[0-9]{1,32}`. -/
def googleId (id : List Char) : Bool := 1 ≤ id.length && id.length ≤ 32 && id.all Char.isDigit

/-- What follows `workos:`: `user_` and a ULID. -/
def workosId (id : List Char) : Bool := id.take 5 = "user_".toList && isUlid (id.drop 5)

/-- **Parse a namespaced subject.** -/
def parseSub (s : String) : Except SubError Sub :=
  let cs := s.toList
  let provider := cs.takeWhile (· ≠ ':')
  let id := cs.drop (provider.length + 1)
  let check (p : Provider) (ok : Bool) : Except SubError Sub :=
    if ok then .ok ⟨p, String.ofList id, s⟩ else .error .invalidFormat
  if ':' ∉ cs then .error .unprefixed
  else if provider = "plex".toList then check .plex (plexId id)
  else if provider = "local".toList then check .local (isUlid id)
  else if provider = "apple".toList then check .apple (appleId id)
  else if provider = "google".toList then check .google (googleId id)
  else if provider = "workos".toList then check .workos (workosId id)
  else .error .unknownProvider

def validSub (s : String) : Bool := (parseSub s).toBool

example : (parseSub "plex:0").toBool = true := by decide

example : parseSub "plex:007" = .error .invalidFormat := by decide

end EmeraldExchange.Contracts
