import EmeraldExchange.MediaCore.Capability
import EmeraldExchange.Transcoder.Session

/-!
# The plan of a transcode

`crates/transcoder/src/plan.rs`: what is to be done with each stream of a file for a client that
cannot play it as it is. The video is copied where the client is known to play the copy, and encoded
anew otherwise; so is each audio track. Dolby Vision goes a way of its own, since it can neither be
copied for a client that does not apply its metadata nor be encoded without them.

What the client says it can play bounds what it is sent
(`sound_iff`), with one exception. An encode is scaled down to the
height of the client, except that of Dolby Vision, which is scaled to the height of its encoder and
no further.
-/

namespace EmeraldExchange.Transcoder.Plan

open MediaCore

/-! ### What is done with a stream -/

/-- `DEFAULT_TARGET_HEIGHT` -/
def defaultTargetHeight : ℤ := 1080

inductive VideoOp
  | copy
  | copyDolbyVision (dvProfile : ℕ)
  | encodeH264 (scaleToHeight : Option ℤ) (toneMap : Bool) (burnSubtitleIndex : Option ℤ)
      (sourceHeight : Option ℤ)
  | encodeDolbyVision (scaleToHeight sourceHeight : Option ℤ)
  deriving DecidableEq

inductive AudioOp
  | copy
  | encodeAac (bitrateKbps : ℕ)
  deriving DecidableEq

inductive SubtitleOp
  | none
  | extractWebVtt (sourceIndex : ℤ)
  deriving DecidableEq

inductive SegmentFormat
  | mpegTs
  | fmp4
  deriving DecidableEq

/-- The streams of a plan that is not to send the file as it is. -/
structure Transcode where
  video : VideoOp
  audio : AudioOp
  subtitle : SubtitleOp
  segmentFormat : SegmentFormat
  audioIndex : ℕ
  extraAudio : List (ℕ × AudioOp)
  altAudio : List (ℕ × AudioOp)
  reason : String
  deriving DecidableEq

/-- **A plan.** -/
inductive TranscodePlan
  | directPlay (reason : String)
  | transcode (streams : Transcode)
  deriving DecidableEq

/-- `reencodes_video` -/
def TranscodePlan.reencodesVideo : TranscodePlan → Bool
  | .directPlay _ => false
  | .transcode s =>
    match s.video with
    | .encodeH264 .. | .encodeDolbyVision .. => true
    | _ => false

/-- A plan as far as the grid of a session depends on it. -/
def TranscodePlan.forGrid : TranscodePlan → Transcoder.TranscodePlan
  | .directPlay _ => .directPlay
  | .transcode s =>
    .transcode <|
      match s.video with
      | .copy => .copy
      | .copyDolbyVision _ => .copyDolbyVision
      | .encodeH264 .. => .encodeH264
      | .encodeDolbyVision .. => .encodeDolbyVision

/-! ### Video -/

/-- `video_profile_copy_safe` -/
def videoProfileCopySafe (codec : List Char) (profile : Option String) : Bool :=
  let profile := String.ofList (lowercase (trimmed profile))
  let codec := String.ofList (lowercase (trim codec))
  if codec ∈ ["h264", "avc", "avc1"] then
    profile ∈ ["baseline", "constrained baseline", "main", "high", "constrained high"]
  else if codec ∈ ["hevc", "h265"] then profile ∈ ["main", "main 10"]
  else true

/-- `is_dolby_vision` -/
def isDolbyVision (hdrFormat : Option String) : Bool :=
  containsText "dolby vision".toList (lowercase (trimmed hdrFormat)) ||
    eqIgnoreCase (trimmed hdrFormat) "dovi".toList

/-- `parse::<u8>()`, which takes a plus. -/
def parseU8 (s : List Char) : Option ℕ :=
  (parseDigits (if s.head? = some '+' then s.tail else s)).filter (· ≤ 255)

/-- `dolby_vision_profile` -/
def dolbyVisionProfile (hdrFormat : Option String) : Option ℕ :=
  let label := lowercase (trimmed hdrFormat)
  let start := "dolby vision p".toList
  if start.isPrefixOf label then
    (Words.words isWhitespace (label.drop start.length)).head?.bind parseU8
  else none

def isHevc (codec : List Char) : Bool := String.ofList (lowercase codec) ∈ ["hevc", "h265"]

/-- A copy can be played inside the segments that are written. -/
def hlsCopyDeliverable (codec : List Char) (caps : ClientCaps) : Bool :=
  if String.ofList (lowercase codec) ∈ ["h264", "avc", "avc1"] then true
  else if isHevc codec then caps.hlsFmp4Hevc
  else false

/-- `plan_subtitle`: the stream has none, whatever the tracks are. -/
def planSubtitle (_ : MediaFileRow) : SubtitleOp × Option ℤ := (.none, none)

/-! ### Audio -/

/-- `is_english_lang` -/
def isEnglishLang (tag : String) : Bool :=
  let t := lowercase (trim tag.toList)
  ["en".toList, "eng".toList, "english".toList].contains t || "en-".toList.isPrefixOf t ||
    "en_".toList.isPrefixOf t

/-- **`preferred_audio_index`**: the first track in English, or else the first. -/
def preferredAudioIndex (file : MediaFileRow) : ℕ :=
  (file.audioTracks.findIdx? fun t => t.language.any isEnglishLang).getD 0

def audioCodec (track : AudioTrack) : List Char := lowercase (trimmed track.codec)

/-- A client can append so many channels: only AAC is limited. -/
def channelsSafe (track : AudioTrack) (caps : ClientCaps) : Bool :=
  if audioCodec track = "aac".toList then
    track.channels.any fun c => c ≤ max caps.aacMaxChannels 2
  else true

/-- **`audio_op_for`** -/
def audioOpFor (track : AudioTrack) (caps : ClientCaps) : AudioOp :=
  if containsCi caps.audioCodecs (audioCodec track) && channelsSafe track caps then .copy
  else .encodeAac (if track.channels.all fun c => 2 < c then 256 else 192)

/-- `plan_audio` -/
def planAudio (file : MediaFileRow) (caps : ClientCaps) : AudioOp :=
  match file.audioTracks[preferredAudioIndex file]?.or file.audioTracks.head? with
  | some track => audioOpFor track caps
  | none => .copy

/-- `other_audio_tracks` -/
def otherAudioTracks (file : MediaFileRow) (caps : ClientCaps) : List (ℕ × AudioOp) :=
  if file.audioTracks.length < 2 then []
  else
    (file.audioTracks.zipIdx.filter fun x => x.2 ≠ preferredAudioIndex file).map fun x =>
      (x.2, audioOpFor x.1 caps)

/-- `plan_extra_audio` -/
def planExtraAudio (file : MediaFileRow) (caps : ClientCaps) : List (ℕ × AudioOp) :=
  if !caps.nativeHls then [] else otherAudioTracks file caps

/-- `plan_alt_audio` -/
def planAltAudio (file : MediaFileRow) (caps : ClientCaps) : List (ℕ × AudioOp) :=
  if !caps.altAudio || caps.nativeHls then [] else otherAudioTracks file caps

/-! ### The plan -/

/-- A plan whose audio is planned the way it always is. -/
def withAudio (file : MediaFileRow) (caps : ClientCaps) (video : VideoOp)
    (segmentFormat : SegmentFormat) (reason : List (List Char)) : TranscodePlan :=
  .transcode
    { video := video
      audio := planAudio file caps
      subtitle := (planSubtitle file).1
      segmentFormat := segmentFormat
      audioIndex := preferredAudioIndex file
      extraAudio := planExtraAudio file caps
      altAudio := planAltAudio file caps
      reason := String.ofList reason.flatten }

def dolbyVisionCopy (file : MediaFileRow) (caps : ClientCaps) (dvPassthrough : Bool) :
    Option ℕ :=
  (dolbyVisionProfile file.hdrFormat).filter fun dvProfile =>
    dvPassthrough && caps.dolbyVision && caps.hlsFmp4Hevc && isHevc (trimmed file.videoCodec) &&
      (dvProfile = 5 || dvProfile = 8) && (overHeight file caps).isNone &&
      (overBitrateCap file caps).isNone

/-- The plan for Dolby Vision. An encode is not scaled to the height of the client. -/
def dolbyVisionPlan (file : MediaFileRow) (caps : ClientCaps) (reason : String)
    (dvPassthrough : Bool) : TranscodePlan :=
  match dolbyVisionCopy file caps dvPassthrough with
  | some dvProfile =>
    withAudio file caps (.copyDolbyVision dvProfile) .fmp4
      [reason.toList, " (dolby vision P".toList, Nat.toDigits 10 dvProfile,
        " passthrough)".toList]
  | none =>
    let scaleToHeight := file.videoHeight.bind fun h =>
      if defaultTargetHeight < h then some defaultTargetHeight else none
    withAudio file caps (.encodeDolbyVision scaleToHeight file.videoHeight) .mpegTs
      [reason.toList, " (dolby vision: libplacebo RPU re-encode)".toList]

/-- The height to scale down to, that of the client but not above the target of the encoder. -/
def scaleToHeight (file : MediaFileRow) (caps : ClientCaps) : Option ℤ :=
  if (overHeight file caps).isSome then
    some (min (caps.maxHeight.getD defaultTargetHeight) defaultTargetHeight)
  else none

def toneMap (file : MediaFileRow) (caps : ClientCaps) : Bool :=
  trimmed file.hdrFormat ≠ [] && !caps.hdr

def videoCopy (file : MediaFileRow) (caps : ClientCaps) : Bool :=
  let codec := trimmed file.videoCodec
  codec ≠ [] && containsCi caps.videoCodecs codec && videoProfileCopySafe codec file.videoProfile &&
    hlsCopyDeliverable codec caps && (overHeight file caps).isNone && !toneMap file caps &&
    (planSubtitle file).2.isNone && (overBitrateCap file caps).isNone

/-- **`plan_transcode_ops_with`** -/
def planTranscodeOps (file : MediaFileRow) (caps : ClientCaps) (reason : String)
    (dvPassthrough : Bool) : TranscodePlan :=
  if isDolbyVision file.hdrFormat then dolbyVisionPlan file caps reason dvPassthrough
  else
    let video := if videoCopy file caps then VideoOp.copy
      else .encodeH264 (scaleToHeight file caps) (toneMap file caps) (planSubtitle file).2
        file.videoHeight
    let segmentFormat := if isHevc (trimmed file.videoCodec) && video = .copy then
      SegmentFormat.fmp4 else .mpegTs
    withAudio file caps video segmentFormat [reason.toList]

/-- **`plan_transcode`** -/
def planTranscode (file : MediaFileRow) (caps : ClientCaps) (dvPassthrough : Bool) :
    TranscodePlan :=
  let decision := decidePlay file caps
  if decision.directPlay then .directPlay decision.reason
  else planTranscodeOps file caps decision.reason dvPassthrough

/-- `plan_transcode_forced`, which never sends the file as it is. -/
def planTranscodeForced (file : MediaFileRow) (caps : ClientCaps) (dvPassthrough : Bool) :
    TranscodePlan :=
  planTranscodeOps file caps "forced buffered delivery" dvPassthrough

/-! ### What a client is not to be sent -/

/-- The height at which the video of a plan arrives, where it is known. -/
def VideoOp.height (file : MediaFileRow) : VideoOp → Option ℤ
  | .copy | .copyDolbyVision _ => file.videoHeight
  | .encodeH264 scale _ _ _ | .encodeDolbyVision scale _ => scale.or file.videoHeight

def TranscodePlan.height (file : MediaFileRow) : TranscodePlan → Option ℤ
  | .directPlay _ => file.videoHeight
  | .transcode s => s.video.height file

/-- The tracks that a plan sends, the one that is played first, and what is done with each. -/
def Transcode.tracks (s : Transcode) : List (ℕ × AudioOp) :=
  (s.audioIndex, s.audio) :: (s.extraAudio ++ s.altAudio)

/-- **A copy of the video is one that the client plays.** -/
structure CopySound (file : MediaFileRow) (caps : ClientCaps) (format : SegmentFormat) : Prop where
  advertised : containsCi caps.videoCodecs (trimmed file.videoCodec) = true
  profile : videoProfileCopySafe (trimmed file.videoCodec) file.videoProfile = true
  bitrate : overBitrateCap file caps = none
  hdr : trimmed file.hdrFormat ≠ [] → caps.hdr = true
  hevc : isHevc (trimmed file.videoCodec) = true → format = .fmp4 ∧ caps.hlsFmp4Hevc = true

/-- **A copy of Dolby Vision goes to a client that plays it.** -/
structure DolbyVisionSound (file : MediaFileRow) (caps : ClientCaps) : Prop where
  dolbyVision : caps.dolbyVision = true
  fmp4Hevc : caps.hlsFmp4Hevc = true
  bitrate : overBitrateCap file caps = none

/-- **A copy of an audio track is one that the client plays.** -/
structure TrackSound (track : AudioTrack) (caps : ClientCaps) : Prop where
  advertised : containsCi caps.audioCodecs (audioCodec track) = true
  channels : audioCodec track = "aac".toList →
    ∃ c, track.channels = some c ∧ c ≤ max 2 caps.aacMaxChannels

/-- **The streams of a plan are such as the client plays.** -/
structure StreamsSound (file : MediaFileRow) (caps : ClientCaps) (s : Transcode) : Prop where
  copy : s.video = .copy → CopySound file caps s.segmentFormat
  copyDolbyVision : ∀ p, s.video = .copyDolbyVision p → DolbyVisionSound file caps
  audio : ∀ x ∈ s.tracks, ∀ track, file.audioTracks[x.1]? = some track → x.2 = .copy →
    TrackSound track caps
  valid : file.audioTracks ≠ [] → ∀ x ∈ s.tracks, x.1 < file.audioTracks.length
  distinct : (s.tracks.map Prod.fst).Nodup
  cover : caps.nativeHls = true ∨ caps.altAudio = true →
    ∀ i < file.audioTracks.length, i ∈ s.tracks.map Prod.fst

/-- **Nothing is sent that is more than the client has said it takes.** -/
structure Sound (file : MediaFileRow) (caps : ClientCaps) (plan : TranscodePlan) : Prop where
  height : ∀ max h, caps.maxHeight = some max → 0 < max → plan.height file = some h → h ≤ max
  streams : ∀ s, plan = .transcode s → StreamsSound file caps s

/-! ### The audio of a plan -/

variable {file : MediaFileRow} {caps : ClientCaps}

theorem preferredAudioIndex_lt (h : file.audioTracks ≠ []) :
    preferredAudioIndex file < file.audioTracks.length := by
  rw [preferredAudioIndex]
  rcases hi : file.audioTracks.findIdx? fun t => t.language.any isEnglishLang with _ | i
  · rw [hi]
    exact List.length_pos_iff.mpr h
  · obtain ⟨hlt, _⟩ := List.findIdx?_eq_some_iff_findIdx_eq.mp hi
    rw [hi]
    exact hlt

theorem TrackSound.of_audioOpFor {track : AudioTrack} (h : audioOpFor track caps = .copy) :
    TrackSound track caps := by
  have hcopy : (containsCi caps.audioCodecs (audioCodec track) && channelsSafe track caps) =
      true := by
    by_contra hc
    rw [audioOpFor, if_neg hc] at h
    cases h
  obtain ⟨hcodec, hsafe⟩ := Bool.and_eq_true_iff.mp hcopy
  refine ⟨hcodec, fun haac => ?_⟩
  rw [channelsSafe, if_pos haac] at hsafe
  obtain ⟨c, hc, hle⟩ := (Option.any_eq_true ..).mp hsafe
  rw [max_comm] at hle
  exact ⟨c, hc, of_decide_eq_true hle⟩

theorem planAudio_eq {track : AudioTrack}
    (h : file.audioTracks[preferredAudioIndex file]? = some track) :
    planAudio file caps = audioOpFor track caps := by
  rw [planAudio, h, Option.some_or]

theorem mem_otherAudioTracks {x : ℕ × AudioOp} (h : x ∈ otherAudioTracks file caps) :
    x.1 ≠ preferredAudioIndex file ∧
      ∃ track, file.audioTracks[x.1]? = some track ∧ x.2 = audioOpFor track caps := by
  rw [otherAudioTracks] at h
  split_ifs at h with hlen
  · cases h
  · obtain ⟨⟨track, i⟩, hmem, rfl⟩ := List.mem_map.mp h
    obtain ⟨hzip, hne⟩ := List.mem_filter.mp hmem
    exact ⟨of_decide_eq_true hne, track, List.mem_zipIdx_iff_getElem?.mp hzip, rfl⟩

theorem map_fst_otherAudioTracks (h : 2 ≤ file.audioTracks.length) :
    (otherAudioTracks file caps).map Prod.fst =
      (List.range file.audioTracks.length).filter (· ≠ preferredAudioIndex file) := by
  rw [otherAudioTracks, if_neg (by omega), List.map_map, List.range_eq_range',
    ← List.zipIdx_map_snd 0 file.audioTracks, List.filter_map]
  rfl

theorem otherAudioTracks_eq_nil (h : file.audioTracks.length < 2) :
    otherAudioTracks file caps = [] := if_pos h

theorem nodup_otherAudioTracks :
    (preferredAudioIndex file :: (otherAudioTracks file caps).map Prod.fst).Nodup := by
  rw [List.nodup_cons]
  refine ⟨fun h => ?_, ?_⟩
  · obtain ⟨x, hx, hi⟩ := List.mem_map.mp h
    exact (mem_otherAudioTracks hx).1 hi
  · rcases Nat.lt_or_ge file.audioTracks.length 2 with hlen | hlen
    · rw [otherAudioTracks_eq_nil hlen]
      exact List.nodup_nil
    · rw [map_fst_otherAudioTracks hlen]
      exact List.nodup_range.filter _

theorem mem_preferred_or_other {i : ℕ} (h : i < file.audioTracks.length) :
    i ∈ preferredAudioIndex file :: (otherAudioTracks file caps).map Prod.fst := by
  by_cases hi : i = preferredAudioIndex file
  · exact hi ▸ List.mem_cons_self
  · refine List.mem_cons_of_mem _ ?_
    rcases Nat.lt_or_ge file.audioTracks.length 2 with hlen | hlen
    · -- of a single track, the first is played
      have hne : file.audioTracks ≠ [] := List.ne_nil_of_length_pos (by omega)
      have hfirst := preferredAudioIndex_lt hne
      omega
    · rw [map_fst_otherAudioTracks hlen, List.mem_filter]
      exact ⟨List.mem_range.mpr h, decide_eq_true hi⟩

theorem extra_append_alt : planExtraAudio file caps ++ planAltAudio file caps =
    if caps.nativeHls ∨ caps.altAudio then otherAudioTracks file caps else [] := by
  rw [planExtraAudio, planAltAudio]
  rcases caps.nativeHls with _ | _ <;> rcases caps.altAudio with _ | _ <;> simp

theorem map_fst_tracks {video : VideoOp} {format : SegmentFormat} {reason : List (List Char)}
    {s : Transcode} (h : withAudio file caps video format reason = .transcode s) :
    s.tracks.map Prod.fst = preferredAudioIndex file ::
      (if caps.nativeHls ∨ caps.altAudio then otherAudioTracks file caps else []).map Prod.fst := by
  obtain rfl := TranscodePlan.transcode.inj h
  rw [← extra_append_alt]
  rfl

/-- **The audio is planned soundly, whatever the video is.** -/
theorem streamsSound_withAudio {video : VideoOp} {format : SegmentFormat}
    {reason : List (List Char)} {s : Transcode}
    (h : withAudio file caps video format reason = .transcode s)
    (hcopy : video = .copy → CopySound file caps format)
    (hdv : ∀ p, video = .copyDolbyVision p → DolbyVisionSound file caps) :
    StreamsSound file caps s := by
  have hfst := map_fst_tracks h
  obtain rfl := TranscodePlan.transcode.inj h
  have hother : ∀ x ∈ planExtraAudio file caps ++ planAltAudio file caps,
      x ∈ otherAudioTracks file caps := by
    intro x hx
    rw [extra_append_alt] at hx
    split_ifs at hx
    · exact hx
    · cases hx
  refine ⟨hcopy, hdv, ?_, ?_, ?_, ?_⟩
  · intro x hx track ht hc
    rcases List.mem_cons.mp hx with rfl | hx
    · exact .of_audioOpFor ((planAudio_eq ht).symm.trans hc)
    · obtain ⟨_, track', ht', hop⟩ := mem_otherAudioTracks (hother x hx)
      obtain rfl := Option.some.inj (ht.symm.trans ht')
      exact .of_audioOpFor (hop.symm.trans hc)
  · intro hne x hx
    rcases List.mem_cons.mp hx with rfl | hx
    · exact preferredAudioIndex_lt hne
    · obtain ⟨_, track, ht, _⟩ := mem_otherAudioTracks (hother x hx)
      exact (List.getElem?_eq_some_iff.mp ht).1
  · rw [hfst]
    split_ifs
    · exact nodup_otherAudioTracks
    · exact List.nodup_cons.mpr ⟨List.not_mem_nil, List.nodup_nil⟩
  · intro hextra i hi
    rw [hfst, if_pos hextra]
    exact mem_preferred_or_other hi

/-! ### The video of a plan -/

theorem not_hevc_of_avc {c : String} (h : c ∈ ["h264", "avc", "avc1"]) :
    c ∉ ["hevc", "h265"] := by
  rcases List.mem_cons.mp h with rfl | h
  · decide
  · rcases List.mem_cons.mp h with rfl | h
    · decide
    · obtain rfl := List.mem_singleton.mp h
      decide

theorem CopySound.of_videoCopy (h : videoCopy file caps = true) :
    CopySound file caps (if isHevc (trimmed file.videoCodec) then .fmp4 else .mpegTs) := by
  simp only [videoCopy, Bool.and_eq_true, Option.isNone_iff_eq_none, Bool.not_eq_true'] at h
  obtain ⟨⟨⟨⟨⟨⟨⟨_, hcodec⟩, hprofile⟩, hdeliver⟩, _⟩, htone⟩, _⟩, hrate⟩ := h
  refine ⟨hcodec, hprofile, hrate, fun hhdr => ?_, fun hhevc => ⟨if_pos hhevc, ?_⟩⟩
  · rw [toneMap, decide_eq_true hhdr] at htone
    simpa using htone
  · rw [hlsCopyDeliverable] at hdeliver
    split_ifs at hdeliver with havc
    · exact absurd (of_decide_eq_true hhevc) (not_hevc_of_avc havc)
    · exact hdeliver

theorem overHeight_of_videoCopy (h : videoCopy file caps = true) : overHeight file caps = none := by
  simp only [videoCopy, Bool.and_eq_true, Option.isNone_iff_eq_none] at h
  exact h.1.1.1.2

theorem le_max_of_overHeight (h : overHeight file caps = none) {max height : ℤ}
    (hmax : caps.maxHeight = some max) (hh : file.videoHeight = some height) : height ≤ max :=
  overHeight_eq_none.mp h max height hmax hh

/-- **An encode is scaled to what the client wants.** -/
theorem height_encodeH264_le {tone : Bool} {burn source : Option ℤ} {max height : ℤ}
    (hmax : caps.maxHeight = some max)
    (hh : (VideoOp.encodeH264 (scaleToHeight file caps) tone burn source).height file =
      some height) : height ≤ max := by
  rw [VideoOp.height, scaleToHeight] at hh
  split_ifs at hh with hover
  · rw [Option.some_or, hmax] at hh
    exact (Option.some.inj hh).symm.trans_le (min_le_left ..)
  · rw [Option.none_or] at hh
    exact le_max_of_overHeight (Option.not_isSome_iff_eq_none.mp hover) hmax hh

theorem DolbyVisionSound.of_copy {dvPassthrough : Bool} {p : ℕ}
    (h : dolbyVisionCopy file caps dvPassthrough = some p) :
    DolbyVisionSound file caps ∧ overHeight file caps = none := by
  obtain ⟨_, h⟩ := Option.filter_eq_some_iff.mp h
  simp only [Bool.and_eq_true, Option.isNone_iff_eq_none] at h
  obtain ⟨⟨⟨⟨⟨⟨_, hdv⟩, hfmp4⟩, _⟩, _⟩, hover⟩, hrate⟩ := h
  exact ⟨⟨hdv, hfmp4, hrate⟩, hover⟩

/-- **The height of a client that the encoder of Dolby Vision passes over**: one below that of the
encoder and that of the file. -/
def DolbyVisionTooHigh (file : MediaFileRow) (caps : ClientCaps) : Prop :=
  isDolbyVision file.hdrFormat = true ∧ ∃ max height, caps.maxHeight = some max ∧ 0 < max ∧
    file.videoHeight = some height ∧ max < min height defaultTargetHeight

theorem height_encodeDolbyVision {source : Option ℤ} {height : ℤ}
    (hh : file.videoHeight = some height) :
    (VideoOp.encodeDolbyVision (file.videoHeight.bind fun h =>
      if defaultTargetHeight < h then some defaultTargetHeight else none) source).height file =
      some (min height defaultTargetHeight) := by
  rw [VideoOp.height, hh, Option.bind_some]
  split_ifs with hlt
  · rw [Option.some_or, min_eq_right hlt.le]
  · rw [Option.none_or, min_eq_left (not_lt.mp hlt)]

/-! ### The plan -/

theorem sound_withAudio {video : VideoOp} {format : SegmentFormat} {reason : List (List Char)}
    (hheight : ∀ max h, caps.maxHeight = some max → 0 < max → video.height file = some h → h ≤ max)
    (hcopy : video = .copy → CopySound file caps format)
    (hdv : ∀ p, video = .copyDolbyVision p → DolbyVisionSound file caps) :
    Sound file caps (withAudio file caps video format reason) :=
  ⟨hheight, fun _ h => streamsSound_withAudio h hcopy hdv⟩

theorem sound_dolbyVisionPlan {reason : String} {dvPassthrough : Bool}
    (hdv : isDolbyVision file.hdrFormat = true) (h : ¬DolbyVisionTooHigh file caps) :
    Sound file caps (dolbyVisionPlan file caps reason dvPassthrough) := by
  rw [dolbyVisionPlan]
  rcases hcopy : dolbyVisionCopy file caps dvPassthrough with _ | p
  · refine sound_withAudio (fun max height hmax hpos hh => ?_) (by rintro ⟨⟩) (by rintro _ ⟨⟩)
    rcases hsource : file.videoHeight with _ | source
    · -- a height that is not known is not scaled
      rw [VideoOp.height, hsource] at hh
      cases hh
    · rw [height_encodeDolbyVision hsource] at hh
      obtain rfl := Option.some.inj hh
      exact not_lt.mp fun hlt => h ⟨hdv, max, source, hmax, hpos, hsource, hlt⟩
  · obtain ⟨hsound, hover⟩ := DolbyVisionSound.of_copy hcopy
    exact sound_withAudio (fun max height hmax _ hh => le_max_of_overHeight hover hmax hh)
      (by rintro ⟨⟩) fun _ _ => hsound

theorem sound_planTranscodeOps {reason : String} {dvPassthrough : Bool}
    (h : ¬DolbyVisionTooHigh file caps) :
    Sound file caps (planTranscodeOps file caps reason dvPassthrough) := by
  rw [planTranscodeOps]
  by_cases hdv : isDolbyVision file.hdrFormat = true
  · rw [if_pos hdv]
    exact sound_dolbyVisionPlan hdv h
  · rw [if_neg hdv]
    by_cases hcopy : videoCopy file caps = true
    · rw [if_pos hcopy]
      refine sound_withAudio (fun max height hmax _ hh =>
        le_max_of_overHeight (overHeight_of_videoCopy hcopy) hmax hh) (fun _ => ?_)
        (by rintro _ ⟨⟩)
      rw [decide_eq_true rfl, Bool.and_true]
      exact .of_videoCopy hcopy
    · rw [if_neg hcopy]
      exact sound_withAudio (fun max height hmax _ hh => height_encodeH264_le hmax hh)
        (by rintro ⟨⟩) (by rintro _ ⟨⟩)

theorem DolbyVisionTooHigh.overHeight_ne_none (h : DolbyVisionTooHigh file caps) :
    overHeight file caps ≠ none := by
  obtain ⟨_, max, height, hmax, _, hh, hlt⟩ := h
  intro hover
  have hle := le_max_of_overHeight hover hmax hh
  have hmin := min_le_left height defaultTargetHeight
  omega

theorem not_sound_planTranscodeOps {reason : String} {dvPassthrough : Bool}
    (h : DolbyVisionTooHigh file caps) :
    ¬Sound file caps (planTranscodeOps file caps reason dvPassthrough) := by
  have hcopy : dolbyVisionCopy file caps dvPassthrough = none := by
    rcases hcopy : dolbyVisionCopy file caps dvPassthrough with _ | p
    · rfl
    · exact absurd (DolbyVisionSound.of_copy hcopy).2 h.overHeight_ne_none
  obtain ⟨hdv, max, height, hmax, hpos, hh, hlt⟩ := h
  rw [planTranscodeOps, if_pos hdv, dolbyVisionPlan, hcopy]
  intro hsound
  have hle := hsound.height max _ hmax hpos (@height_encodeDolbyVision _ file.videoHeight _ hh)
  omega

/-- **What a client says it takes bounds what it is sent, unless Dolby Vision is encoded for a
client that wants it lower than the encoder makes it.** -/
theorem sound_iff (file : MediaFileRow) (caps : ClientCaps) (dvPassthrough : Bool) :
    (Sound file caps (planTranscode file caps dvPassthrough) ↔ ¬DolbyVisionTooHigh file caps) ∧
      (Sound file caps (planTranscodeForced file caps dvPassthrough) ↔
        ¬DolbyVisionTooHigh file caps) := by
  refine ⟨⟨fun hs h => ?_, fun h => ?_⟩,
    fun hs h => not_sound_planTranscodeOps h hs, sound_planTranscodeOps⟩
  · have hplay : ¬(decidePlay file caps).directPlay = true := fun hplay =>
      h.overHeight_ne_none (overHeight_of_directPlay hplay)
    rw [planTranscode, if_neg hplay] at hs
    exact not_sound_planTranscodeOps h hs
  · rw [planTranscode]
    by_cases hplay : (decidePlay file caps).directPlay = true
    · rw [if_pos hplay]
      exact ⟨fun max height hmax _ hh =>
        le_max_of_overHeight (overHeight_of_directPlay hplay) hmax hh, by rintro _ ⟨⟩⟩
    · rw [if_neg hplay]
      exact sound_planTranscodeOps h

/-- A film in Dolby Vision of 1080 lines, for a client that wants 720. -/
def dolbyVisionFilm : MediaFileRow :=
  { sizeBytes := 8000000000, container := some "mkv", durationSecs := some 7200
    videoCodec := some "hevc", videoHeight := some 1080, videoProfile := some "Main 10"
    hdrFormat := some "Dolby Vision P5", audioTracks := [⟨some "aac", some 2, some "eng"⟩] }

def smallClient : ClientCaps :=
  { containers := ["mp4"], videoCodecs := ["h264"], maxHeight := some 720 }

/-- **The film is sent at 1080 lines.** -/
theorem not_sound_dolbyVisionFilm :
    (planTranscode dolbyVisionFilm smallClient false).height dolbyVisionFilm = some 1080 ∧
      ¬Sound dolbyVisionFilm smallClient (planTranscode dolbyVisionFilm smallClient false) := by
  have hheight : (planTranscode dolbyVisionFilm smallClient false).height dolbyVisionFilm =
      some 1080 := by decide +kernel
  exact ⟨hheight, fun h => absurd (h.height 720 1080 rfl (by decide) hheight) (by decide)⟩

end EmeraldExchange.Transcoder.Plan
