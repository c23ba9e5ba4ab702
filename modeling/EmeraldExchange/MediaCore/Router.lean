import EmeraldExchange.Lib.Decimal
import EmeraldExchange.Lib.Percent
import EmeraldExchange.Lib.Utf8

/-!
# The router of the media library

Which handler a path reaches, of those that show a title: the bytes of its file, its subtitles, or
its chapters. The literal segments of a route are compared as they stand in the path; what stands
for a parameter is one segment, which is not empty and from which escapes are read, once. An
identifier is an integer of 64 bits, however it is spelled.
-/

namespace EmeraldExchange.MediaCore

def ascii (s : String) : List UInt8 := Utf8.encode s.toList

def slash : UInt8 := 0x2f

/-- **The handlers that show a title.** -/
inductive Handler
  | stream | subtitles | chapters
  deriving DecidableEq

/-- The first segment of the routes of a handler. -/
def Handler.lead : Handler → String
  | .stream => "stream"
  | .subtitles => "subtitles"
  | .chapters => "chapters"

/-- What may follow the parameters of the subtitles. -/
def subtitleActions : List String := ["file", "download", "transcribe"]

def nest : List (List UInt8) := [[], ascii "api", ascii "media"]

instance lawfulBEqBytes : LawfulBEq (List UInt8) := List.instLawfulBEq

/-- `i64::from_str` -/
def parseI64 (cs : List Char) : Option ℤ :=
  (Decimal.integer cs).filter fun z => -2 ^ 63 ≤ z ∧ z < 2 ^ 63

/-- **The route of some segments**, with what stands for its parameters. -/
def route : List (List UInt8) → Option (Handler × List UInt8 × List UInt8)
  | [root, api, media, lead, kind, id] =>
    if [root, api, media] = nest then
      if lead = ascii "stream" then some (.stream, kind, id)
      else if lead = ascii "subtitles" then some (.subtitles, kind, id)
      else if lead = ascii "chapters" then some (.chapters, kind, id)
      else none
    else none
  | [root, api, media, lead, kind, id, action] =>
    if [root, api, media] = nest ∧ lead = ascii "subtitles" ∧
        action ∈ subtitleActions.map ascii then
      some (.subtitles, kind, id)
    else none
  | _ => none

def param (segment : List UInt8) : Option (List Char) :=
  if segment = [] then none else Utf8.decode (Percent.decode segment)

/-- **Where a path goes**: to a handler, for a title of a kind. -/
def dispatch (path : List UInt8) : Option (Handler × String × ℤ) := do
  let (h, kind, id) ← route (path.splitOn slash)
  let kind ← param kind
  let id ← param id
  let id ← parseI64 id
  some (h, String.ofList kind, id)

/-- **The segments of a route.** -/
theorem route_eq_some {segments : List (List UInt8)} {h : Handler} {kind id : List UInt8}
    (hroute : route segments = some (h, kind, id)) :
    ∃ tail, segments = nest ++ ascii h.lead :: kind :: id :: tail ∧
      (tail = [] ∨ ∃ action ∈ subtitleActions, tail = [ascii action]) := by
  match segments, hroute with
  | [root, api, media, lead, kind', id'], hroute =>
    rw [route] at hroute
    split at hroute
    · next hnest =>
      refine ⟨[], ?_, .inl rfl⟩
      rw [← hnest]
      split at hroute
      · next hlead =>
        cases hroute
        exact hlead ▸ rfl
      · split at hroute
        · next hlead =>
          cases hroute
          exact hlead ▸ rfl
        · split at hroute
          · next hlead =>
            cases hroute
            exact hlead ▸ rfl
          · cases hroute
    · cases hroute
  | [root, api, media, lead, kind', id', action], hroute =>
    rw [route] at hroute
    split at hroute
    · next hall =>
      obtain ⟨hnest, hlead, haction⟩ := hall
      obtain ⟨name, hname, rfl⟩ := List.mem_map.mp haction
      cases hroute
      exact ⟨[ascii name], by rw [← hnest, hlead]; rfl, .inr ⟨name, hname, rfl⟩⟩
    · cases hroute

theorem dispatch_eq_some {path : List UInt8} {h : Handler} {kind : String} {id : ℤ}
    (hdispatch : dispatch path = some (h, kind, id)) :
    ∃ rawKind rawId idText, route (path.splitOn slash) = some (h, rawKind, rawId) ∧
      Utf8.decode (Percent.decode rawKind) = some kind.toList ∧
      Utf8.decode (Percent.decode rawId) = some idText ∧ Decimal.integer idText = some id := by
  rw [dispatch, Option.bind_eq_bind, Option.bind_eq_some_iff] at hdispatch
  obtain ⟨⟨h', rawKind, rawId⟩, hroute, hrest⟩ := hdispatch
  simp only [Option.bind_eq_bind, Option.bind_eq_some_iff, Option.some.injEq] at hrest
  obtain ⟨kindText, hkind, idText, hid, z, hz, heq⟩ := hrest
  cases heq
  have hparam : ∀ {segment : List UInt8} {text : List Char}, param segment = some text →
      Utf8.decode (Percent.decode segment) = some text := by
    intro segment text htext
    rw [param] at htext
    split at htext
    · cases htext
    · exact htext
  rw [parseI64, Option.filter_eq_some_iff] at hz
  exact ⟨rawKind, rawId, idText, hroute, by rw [hparam hkind, String.toList_ofList], hparam hid,
    hz.1⟩

theorem dispatch_of_splitOn {path : List UInt8} {h : Handler} {rawKind rawId : List UInt8}
    {kind : String} {idText : List Char} {id : ℤ}
    (hsplit : path.splitOn slash = nest ++ [ascii h.lead, rawKind, rawId])
    (hrawKind : rawKind ≠ []) (hrawId : rawId ≠ [])
    (hkind : Percent.decode rawKind = ascii kind) (hid : Percent.decode rawId = Utf8.encode idText)
    (hint : parseI64 idText = some id) : dispatch path = some (h, kind, id) := by
  have hroute : route (nest ++ [ascii h.lead, rawKind, rawId]) = some (h, rawKind, rawId) := by
    cases h <;> rfl
  rw [dispatch, hsplit, hroute]
  simp only [Option.bind_eq_bind, Option.bind_some, param, if_neg hrawKind, if_neg hrawId, hkind,
    hid, ascii, Utf8.decode_encode, hint, String.ofList_toList]

end EmeraldExchange.MediaCore
