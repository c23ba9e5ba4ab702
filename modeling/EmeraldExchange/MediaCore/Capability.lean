import Mathlib.Algebra.Ring.Int.Defs
import EmeraldExchange.MediaCore.Filename

/-!
# What a client can play

`crates/media-core/src/capability.rs`: from what the probe of a file has stored, and what a client
says of itself, it is decided whether the file can be sent as it is. Each check denies, with a
reason; what passes them all is sent.

The lists of tracks are stored as JSON, and what cannot be read is an empty list; here they are
lists.
-/

namespace EmeraldExchange.MediaCore

/-! ### The file -/

structure AudioTrack where
  codec : Option String
  channels : Option ℤ
  language : Option String
  deriving DecidableEq

/-- **A row of `media_files`**, as far as it is planned with. -/
structure MediaFileRow where
  sizeBytes : ℤ
  container : Option String
  durationSecs : Option ℤ
  videoCodec : Option String
  videoHeight : Option ℤ
  videoProfile : Option String
  hdrFormat : Option String
  audioTracks : List AudioTrack
  deriving DecidableEq

/-! ### The client -/

/-- **What a client says of itself.** -/
structure ClientCaps where
  containers : List String := []
  videoCodecs : List String := []
  maxHeight : Option ℤ := none
  hdr : Bool := false
  maxBitrate : Option ℤ := none
  audioCodecs : List String := ["aac"]
  aacMaxChannels : ℤ := 2
  hlsFmp4Hevc : Bool := false
  nativeHls : Bool := false
  altAudio : Bool := false
  dolbyVision : Bool := false
  deriving DecidableEq

/-! ### Texts -/

/-- `to_ascii_lowercase` -/
def lowercase (s : List Char) : List Char := s.map Char.toLower

/-- `eq_ignore_ascii_case` -/
def eqIgnoreCase (s t : List Char) : Bool := lowercase s = lowercase t

/-- A text that may be missing, without what is around it. -/
def trimmed (s : Option String) : List Char := trim (s.getD "").toList

/-- `str::contains` -/
def containsText (w s : List Char) : Bool := s.tails.any w.isPrefixOf

/-- `contains_ci` -/
def containsCi (haystack : List String) (needle : List Char) : Bool :=
  haystack.any fun c => eqIgnoreCase c.toList needle

/-! ### The checks -/

def movFamily : List String := ["mov", "mp4", "m4a", "m4v", "3gp", "3g2", "mj2"]

/-- `container_family` -/
def containerFamily (c : List Char) : List Char :=
  if movFamily.any fun m => eqIgnoreCase c m.toList then "mp4".toList
  else if eqIgnoreCase c "matroska".toList || eqIgnoreCase c "mkv".toList then "mkv".toList
  else c

/-- `container_supported` -/
def containerSupported (caps : List String) (stored : List Char) : Bool :=
  caps.any fun c => eqIgnoreCase (containerFamily c.toList) (containerFamily stored)

structure PlayDecision where
  directPlay : Bool
  reason : String
  deriving DecidableEq

def deny (reason : List (List Char)) : PlayDecision := ⟨false, String.ofList reason.flatten⟩

/-- **`over_bitrate_cap`**: the average rate of a file, in bits a second, if it is over what the
client wants. -/
def overBitrateCap (file : MediaFileRow) (caps : ClientCaps) : Option ℤ := do
  let max ← caps.maxBitrate
  let duration ← file.durationSecs
  if max ≤ 0 ∨ duration ≤ 0 ∨ file.sizeBytes ≤ 0 then none
  else
    -- `saturating_mul`, of a number that is positive
    let avgBps := min (file.sizeBytes * 8) (2 ^ 63 - 1) / duration
    if max < avgBps then some avgBps else none

/-- The height of a file, and that of the client which it exceeds. -/
def overHeight (file : MediaFileRow) (caps : ClientCaps) : Option (ℤ × ℤ) := do
  let max ← caps.maxHeight
  let height ← file.videoHeight
  if max < height then some (height, max) else none

def digitsOf (z : ℤ) : List Char := (toString z).toList

/-- The audio track that a player would take has a codec which the client does not know. -/
def unknownAudio (file : MediaFileRow) (caps : ClientCaps) : Option (List Char) := do
  let track ← file.audioTracks.head?
  let codec := trimmed track.codec
  if codec ≠ [] ∧ !containsCi caps.audioCodecs codec then some codec else none

/-- **`decide`**: whether the file can be sent as it is. -/
def decidePlay (file : MediaFileRow) (caps : ClientCaps) : PlayDecision :=
  let container := trimmed file.container
  let codec := trimmed file.videoCodec
  let profile := trimmed file.videoProfile
  let hdrLabel := trimmed file.hdrFormat
  let isDv := containsText "dolby vision".toList (lowercase hdrLabel) ||
    eqIgnoreCase hdrLabel "dovi".toList
  let unsupported := " not supported by client".toList
  if container = [] then deny ["unknown container".toList]
  else if !containerSupported caps.containers container then
    deny ["container ".toList, container, unsupported]
  else if containerFamily container = "mkv".toList then
    deny ["matroska cannot progressive-play in browsers; remux required".toList]
  else if codec = [] then deny ["unknown codec".toList]
  else if !containsCi caps.videoCodecs codec then deny ["codec ".toList, codec, unsupported]
  else if eqIgnoreCase codec "h264".toList && containsText "10".toList profile then
    deny ["h264 profile ".toList, profile, " (10-bit)".toList, unsupported]
  else
    match overHeight file caps with
    | some (height, max) =>
      deny ["height ".toList, digitsOf height, " exceeds client max ".toList, digitsOf max]
    | none =>
      match overBitrateCap file caps with
      | some avgBps =>
        deny ["bitrate ".toList, digitsOf avgBps, " exceeds client max ".toList,
          digitsOf (caps.maxBitrate.getD 0)]
      | none =>
        if isDv && !caps.dolbyVision then deny ["dolby vision requires rpu-aware handling".toList]
        else if hdrLabel ≠ [] && !caps.hdr then deny ["hdr requires tone-map".toList]
        else
          match unknownAudio file caps with
          | some acodec => deny ["audio codec ".toList, acodec, unsupported]
          | none => ⟨true, "direct play"⟩

/-! ### What is sent as it is -/

variable {file : MediaFileRow} {caps : ClientCaps}

theorem overHeight_eq_none : overHeight file caps = none ↔
    ∀ max height, caps.maxHeight = some max → file.videoHeight = some height → height ≤ max := by
  rw [overHeight]
  rcases caps.maxHeight with _ | max <;> rcases file.videoHeight with _ | height
  · simp
  · simp
  · simp
  · simp

/-- **Nothing is sent as it is that is higher than the client wants.** -/
theorem overHeight_of_directPlay (h : (decidePlay file caps).directPlay = true) :
    overHeight file caps = none := by
  rcases hover : overHeight file caps with _ | ⟨height, max⟩
  · rfl
  · -- whatever is checked before denies too
    refine absurd h ?_
    rw [decidePlay, hover]
    dsimp only [deny]
    split_ifs <;> simp

end EmeraldExchange.MediaCore
