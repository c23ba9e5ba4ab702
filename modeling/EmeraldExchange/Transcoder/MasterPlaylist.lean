import EmeraldExchange.Transcoder.Renditions
import EmeraldExchange.Lib.AttributeList

/-!
# Master playlists

The playlist that a session's player reads first is put together from pieces of text: a line for
every audio rendition, one for the subtitles, one for the stream and, for some sessions, one for its
thumbnails. The names and languages in it come from the file.

A player reads lines, and attribute lists in them. It reads what was meant if every name in the
playlist is made of characters that may stand in quotes; a quote or a line break in a name is not
taken out by anything, and then the playlist does not say what was meant
(`wellFormed_masters_iff`).
-/

namespace EmeraldExchange.Transcoder.MasterPlaylist

open Auth (trimMatches whiteSpace)
open AttributeList (Attrs Value quotable)
open Renditions

/-! ### What the code does -/

def audioGroupId : List Char := "aud".toList

def subsPlaylistName : List Char := "subs.m3u8".toList

def mediaPlaylistName : List Char := "media.m3u8".toList

def iframePlaylistName : List Char := "iframe.m3u8".toList

def iframeBandwidthBps : ℕ := 120000

/-- The subtitle track of a session, as far as its playlist names it. -/
structure SidecarSubtitle where
  language : Option (List Char)
  forced : Bool

/-- **`audio_group`**, with at most `steps` steps for each search of a name. -/
def audioGroup (steps : ℕ) (tracks : List AudioTrack) (primary : ℕ) (extras : List ℕ) :
    Option (List AudioRendition) :=
  if extras = [] then some []
  else dedupeRenditionNames steps
    (renditionFrom tracks[primary]? primary true none ::
      extras.map fun idx => renditionFrom tracks[idx]? idx false (some idx))

/-- The attribute with the trimmed language, if there is one, and a comma. -/
def languageAttr (language : List Char) : List Char :=
  if language = [] then [] else "LANGUAGE=\"".toList ++ language ++ "\",".toList

/-- **`audio_media_tag`** -/
def audioMediaTag (rendition : AudioRendition) : List Char :=
  "#EXT-X-MEDIA:TYPE=AUDIO,GROUP-ID=\"".toList ++ audioGroupId ++ "\",NAME=\"".toList ++
    rendition.name ++ "\",".toList ++
    languageAttr ((rendition.language.map (trimMatches whiteSpace)).getD []) ++
    "AUTOSELECT=YES,DEFAULT=".toList ++
    (if rendition.isDefault then "YES".toList else "NO".toList) ++
    (match rendition.uri with
      | some uri => ",URI=\"".toList ++ uri ++ "\"".toList
      | none => []) ++ "\n".toList

def SidecarSubtitle.lang (subs : SidecarSubtitle) : List Char :=
  trimMatches whiteSpace (subs.language.getD [])

def SidecarSubtitle.name (subs : SidecarSubtitle) : List Char :=
  if subs.lang = [] then "Subtitles".toList else subs.lang

/-- **`media_tag`**, of the subtitles. -/
def mediaTag (subs : SidecarSubtitle) : List Char :=
  "#EXT-X-MEDIA:TYPE=SUBTITLES,GROUP-ID=\"subs\",NAME=\"".toList ++ subs.name ++ "\",".toList ++
    languageAttr subs.lang ++ "AUTOSELECT=YES,DEFAULT=NO,FORCED=".toList ++
    (if subs.forced then "YES".toList else "NO".toList) ++ ",URI=\"".toList ++ subsPlaylistName ++
    "\"\n".toList

/-- The attributes of the stream after its bandwidth. -/
def variantAttrs (resolution : Option (ℕ × ℕ)) (audio : List AudioRendition)
    (subs : Option SidecarSubtitle) : List Char :=
  (match resolution with
    | some (w, h) => ",RESOLUTION=".toList ++ Decimal.text w ++ "x".toList ++ Decimal.text h
    | none => []) ++
    (if audio = [] then [] else ",AUDIO=\"".toList ++ audioGroupId ++ "\"".toList) ++
    (if subs.isSome then ",SUBTITLES=\"subs\"".toList else [])

/-- **`master`** -/
def master (variantBandwidthBps : ℕ) (resolution : Option (ℕ × ℕ)) (includeIframe : Bool)
    (subs : Option SidecarSubtitle) (audio : List AudioRendition) : List Char :=
  "#EXTM3U\n".toList ++ "#EXT-X-VERSION:4\n".toList ++
    (if includeIframe then
      "#EXT-X-I-FRAME-STREAM-INF:BANDWIDTH=".toList ++ Decimal.text iframeBandwidthBps ++
        ",URI=\"".toList ++ iframePlaylistName ++ "\"\n".toList
    else []) ++
    audio.flatMap audioMediaTag ++ (subs.map mediaTag).getD [] ++
    "#EXT-X-STREAM-INF:BANDWIDTH=".toList ++ Decimal.text variantBandwidthBps ++
    variantAttrs resolution audio subs ++ "\n".toList ++ mediaPlaylistName ++ "\n".toList

/-- **`audio_master`** -/
def audioMaster (variantBandwidthBps : ℕ) (audio : List AudioRendition) : List Char :=
  "#EXTM3U\n#EXT-X-VERSION:4\n".toList ++ audio.flatMap audioMediaTag ++
    "#EXT-X-STREAM-INF:BANDWIDTH=".toList ++ Decimal.text variantBandwidthBps ++
    ",AUDIO=\"".toList ++ audioGroupId ++ "\"\nindex.m3u8\n".toList

/-- The playlist for a web player, of a session that has a group. -/
def webMaster (variantBandwidthBps : ℕ) (audio : List AudioRendition) : Option (List Char) :=
  if audio = [] then none else some (audioMaster variantBandwidthBps audio)

/-! ### What a player reads -/

inductive Tag
  | media
  | streamInf
  | iFrameStreamInf
  deriving DecidableEq

def Tag.text : Tag → List Char
  | .media => "#EXT-X-MEDIA:".toList
  | .streamInf => "#EXT-X-STREAM-INF:".toList
  | .iFrameStreamInf => "#EXT-X-I-FRAME-STREAM-INF:".toList

inductive Line
  | attributes (tag : Tag) (attrs : Attrs)
  | other (tag : List Char)
  | uri (s : List Char)
  deriving DecidableEq

def tagOf (s : List Char) : Option Tag :=
  [Tag.media, .streamInf, .iFrameStreamInf].find? fun tag => tag.text.isPrefixOf s

/-- **Read a line** that is not blank. -/
def readLine (s : List Char) : Option Line :=
  match tagOf s with
  | some tag => (AttributeList.read (s.drop tag.text.length)).map (.attributes tag)
  | none => some (if s.head? = some '#' then .other s else .uri s)

def readLines : List (List Char) → Option (List Line)
  | [] => some []
  | s :: rest =>
    if s = [] then readLines rest
    else (readLine s).bind fun line => (readLines rest).map (line :: ·)

/-- **Read a playlist.** -/
def readPlaylist (text : List Char) : Option (List Line) := readLines (text.splitOn '\n')

/-! ### What is meant -/

def quoted (name : String) (s : List Char) : List Char × Value := (name.toList, .quoted s)

@[inherit_doc quoted]
def bare (name : String) (s : List Char) : List Char × Value := (name.toList, .bare s)

def yesNo (b : Bool) : List Char := if b then "YES".toList else "NO".toList

/-- The language of a rendition, if there is one. -/
def languageAttrs (language : List Char) : Attrs :=
  if language = [] then [] else [quoted "LANGUAGE" language]

def audioAttrs (r : AudioRendition) : Attrs :=
  [bare "TYPE" "AUDIO".toList, quoted "GROUP-ID" audioGroupId, quoted "NAME" r.name] ++
    languageAttrs ((r.language.map (trimMatches whiteSpace)).getD []) ++
    [bare "AUTOSELECT" "YES".toList, bare "DEFAULT" (yesNo r.isDefault)] ++
    (r.uri.map (quoted "URI")).toList

def subsAttrs (s : SidecarSubtitle) : Attrs :=
  [bare "TYPE" "SUBTITLES".toList, quoted "GROUP-ID" "subs".toList, quoted "NAME" s.name] ++
    languageAttrs s.lang ++
    [bare "AUTOSELECT" "YES".toList, bare "DEFAULT" "NO".toList, bare "FORCED" (yesNo s.forced),
      quoted "URI" subsPlaylistName]

def streamAttrs (bandwidth : ℕ) (resolution : Option (ℕ × ℕ)) (audio subs : Bool) : Attrs :=
  bare "BANDWIDTH" (Decimal.text bandwidth) ::
    ((resolution.map fun r =>
        bare "RESOLUTION" (Decimal.text r.1 ++ 'x' :: Decimal.text r.2)).toList ++
      (if audio then [quoted "AUDIO" audioGroupId] else []) ++
      (if subs then [quoted "SUBTITLES" "subs".toList] else []))

def header : List Line := [.other "#EXTM3U".toList, .other "#EXT-X-VERSION:4".toList]

/-- **The lines of a master playlist**: tags, and the address of the one stream. -/
def playlistLines (uri : List Char) (bandwidth : ℕ) (resolution : Option (ℕ × ℕ))
    (includeIframe : Bool) (subs : Option SidecarSubtitle) (audio : List AudioRendition) :
    List Line :=
  header ++
    (if includeIframe then [.attributes .iFrameStreamInf
      [bare "BANDWIDTH" (Decimal.text iframeBandwidthBps), quoted "URI" iframePlaylistName]]
    else []) ++
    audio.map (fun r => .attributes .media (audioAttrs r)) ++
    (subs.map fun s => Line.attributes .media (subsAttrs s)).toList ++
    [.attributes .streamInf (streamAttrs bandwidth resolution (audio ≠ []) subs.isSome), .uri uri]

def masterLines (bandwidth : ℕ) (resolution : Option (ℕ × ℕ)) (includeIframe : Bool)
    (subs : Option SidecarSubtitle) (audio : List AudioRendition) : List Line :=
  playlistLines mediaPlaylistName bandwidth resolution includeIframe subs audio

def audioMasterLines (bandwidth : ℕ) (audio : List AudioRendition) : List Line :=
  playlistLines "index.m3u8".toList bandwidth none false none audio

def Line.declares (kind : String) (group : List Char) : Line → Prop
  | .attributes .media attrs =>
    bare "TYPE" kind.toList ∈ attrs ∧ quoted "GROUP-ID" group ∈ attrs
  | _ => False

/-- A line with the audio rendition of a group that is played by default. -/
def Line.isDefault (group : List Char) : Line → Bool
  | .attributes .media attrs =>
    attrs.contains (bare "TYPE" "AUDIO".toList) && attrs.contains (quoted "GROUP-ID" group) &&
      attrs.contains (bare "DEFAULT" "YES".toList)
  | _ => false

/-- **A playlist is well formed**: it is read as the lines that are meant, each with distinct
attributes; every group of audio renditions has one that is played by default; and the groups of the
stream are declared. -/
structure WellFormed (meant : List Line) (text : List Char) : Prop where
  reads : readPlaylist text = some meant
  attrs_nodup : ∀ tag attrs, Line.attributes tag attrs ∈ meant → (attrs.map Prod.fst).Nodup
  one_default : ∀ group, (∃ line ∈ meant, line.declares "AUDIO" group) →
    meant.countP (Line.isDefault group) = 1
  declared : ∀ attrs, Line.attributes .streamInf attrs ∈ meant →
    ∀ kind ∈ ["AUDIO", "SUBTITLES"], ∀ group, quoted kind group ∈ attrs →
      ∃ line ∈ meant, line.declares kind group

/-! ### Lines and their text -/

def Line.text : Line → List Char
  | .attributes tag attrs => tag.text ++ AttributeList.text attrs
  | .other s => s
  | .uri s => s

structure Line.Ok (l : Line) : Prop where
  text_ne_nil : l.text ≠ []
  newline_notMem : '\n' ∉ l.text
  readLine_text : readLine l.text = some l

def textOf (lines : List Line) : List Char := lines.flatMap fun l => l.text ++ ['\n']

theorem tagOf_append (tag : Tag) (s : List Char) : tagOf (tag.text ++ s) = some tag := by
  cases tag <;> rfl

theorem ok_attributes {tag : Tag} {attrs : Attrs} (hne : attrs ≠ [])
    (h : ∀ a ∈ attrs, AttributeList.AttrOk a) : (Line.attributes tag attrs).Ok where
  text_ne_nil := by cases tag <;> exact List.cons_ne_nil _ _
  newline_notMem := by
    intro hmem
    rcases List.mem_append.mp hmem with hmem | hmem
    · cases tag <;> exact absurd hmem (by decide)
    · exact AttributeList.newline_notMem_text h hmem
  readLine_text := by
    rw [Line.text, readLine, tagOf_append]
    simp only [List.drop_left, AttributeList.read_text hne h, Option.map_some]

theorem splitOn_newline {s : List Char} (hs : '\n' ∉ s) (rest : List Char) :
    (s ++ '\n' :: rest).splitOn '\n' = s :: rest.splitOn '\n' := by
  have hne : ∀ c ∈ s, (c == '\n') = false := by
    intro c hc
    exact beq_eq_false_iff_ne.mpr fun h => hs (h ▸ hc)
  simp only [List.splitOn_eq_splitOnP]
  exact List.splitOnP_append_cons_of_forall_mem hne '\n' (by decide) rest

/-- **Lines are read again from their text.** -/
theorem readPlaylist_textOf : ∀ {lines : List Line}, (∀ l ∈ lines, l.Ok) →
    readPlaylist (textOf lines) = some lines
  | [], _ => rfl
  | l :: lines, h => by
    obtain ⟨hl, hlines⟩ := List.forall_mem_cons.mp h
    have hrest : readLines ((textOf lines).splitOn '\n') = some lines := readPlaylist_textOf hlines
    have htext : textOf (l :: lines) = l.text ++ '\n' :: textOf lines := by
      simp [textOf]
    rw [readPlaylist, htext, splitOn_newline hl.newline_notMem, readLines, if_neg hl.text_ne_nil,
      hl.readLine_text, Option.bind_some, hrest, Option.map_some]

/-- **What is read from quotes has none**, and no line break. -/
theorem quotable_of_readLines : ∀ {ss : List (List Char)} {lines : List Line},
    readLines ss = some lines → ∀ tag attrs, Line.attributes tag attrs ∈ lines →
      ∀ name v, (name, Value.quoted v) ∈ attrs → ∀ c ∈ v, quotable c = true
  | [], lines, h => by
    obtain rfl := Option.some.inj h
    exact fun tag attrs hmem => by cases hmem
  | s :: ss, lines, h => by
    rw [readLines] at h
    split at h
    · exact quotable_of_readLines h
    · obtain ⟨line, hline, h⟩ := Option.bind_eq_some_iff.mp h
      obtain ⟨rest, hrest, rfl⟩ := Option.map_eq_some_iff.mp h
      intro tag attrs hmem name v hv
      rcases List.mem_cons.mp hmem with rfl | hmem
      · rw [readLine] at hline
        split at hline
        · obtain ⟨read, hread, heq⟩ := Option.map_eq_some_iff.mp hline
          obtain ⟨rfl, rfl⟩ := Line.attributes.inj heq
          exact AttributeList.quotable_of_read hread hv
        · split at hline
          · cases hline
          · cases hline
      · exact quotable_of_readLines hrest tag attrs hmem name v hv

/-! ### What the code writes -/

section pieces

theorem newlineText : "\n".toList = ['\n'] := by decide

theorem quoteText : "\"".toList = ['"'] := by decide

theorem audioText : "#EXT-X-MEDIA:TYPE=AUDIO,GROUP-ID=\"".toList = Tag.media.text ++
    ("TYPE".toList ++ '=' :: ("AUDIO".toList ++ ',' :: ("GROUP-ID".toList ++ ['=', '"']))) := by
  decide

theorem subsText : "#EXT-X-MEDIA:TYPE=SUBTITLES,GROUP-ID=\"subs\",NAME=\"".toList =
    Tag.media.text ++ ("TYPE".toList ++ '=' :: ("SUBTITLES".toList ++ ',' ::
      ("GROUP-ID".toList ++ '=' :: '"' :: ("subs".toList ++ '"' :: ',' ::
        ("NAME".toList ++ ['=', '"']))))) := by
  decide

theorem nameText : "\",NAME=\"".toList = '"' :: ',' :: ("NAME".toList ++ ['=', '"']) := by
  decide

theorem commaText : "\",".toList = ['"', ','] := by decide

theorem languageText : "LANGUAGE=\"".toList = "LANGUAGE".toList ++ ['=', '"'] := by decide

theorem defaultText : "AUTOSELECT=YES,DEFAULT=".toList =
    "AUTOSELECT".toList ++ '=' :: ("YES".toList ++ ',' :: ("DEFAULT".toList ++ ['='])) := by
  decide

theorem forcedText : "AUTOSELECT=YES,DEFAULT=NO,FORCED=".toList =
    "AUTOSELECT".toList ++ '=' :: ("YES".toList ++ ',' :: ("DEFAULT".toList ++ '=' ::
      ("NO".toList ++ ',' :: ("FORCED".toList ++ ['='])))) := by
  decide

theorem uriText : ",URI=\"".toList = ',' :: ("URI".toList ++ ['=', '"']) := by decide

theorem endText : "\"\n".toList = ['"', '\n'] := by decide

theorem iframeText : "#EXT-X-I-FRAME-STREAM-INF:BANDWIDTH=".toList =
    Tag.iFrameStreamInf.text ++ ("BANDWIDTH".toList ++ ['=']) := by
  decide

theorem streamText : "#EXT-X-STREAM-INF:BANDWIDTH=".toList =
    Tag.streamInf.text ++ ("BANDWIDTH".toList ++ ['=']) := by
  decide

theorem resolutionText : ",RESOLUTION=".toList = ',' :: ("RESOLUTION".toList ++ ['=']) := by decide

theorem timesText : "x".toList = ['x'] := by decide

theorem audioGroupText : ",AUDIO=\"".toList = ',' :: ("AUDIO".toList ++ ['=', '"']) := by decide

theorem subsGroupText : ",SUBTITLES=\"subs\"".toList =
    ',' :: ("SUBTITLES".toList ++ '=' :: '"' :: ("subs".toList ++ ['"'])) := by
  decide

theorem headerText : "#EXTM3U\n".toList ++ "#EXT-X-VERSION:4\n".toList = textOf header := by decide

theorem headerText' : "#EXTM3U\n#EXT-X-VERSION:4\n".toList = textOf header := by decide

theorem indexText : "\"\nindex.m3u8\n".toList =
    '"' :: '\n' :: ("index.m3u8".toList ++ ['\n']) := by
  decide

end pieces

theorem languageAttr_eq (language : List Char) : languageAttr language =
    (languageAttrs language).flatMap fun a => AttributeList.attrText a ++ [','] := by
  unfold languageAttr languageAttrs
  split
  · rfl
  · simp only [List.flatMap_cons, List.flatMap_nil, quoted, AttributeList.attrText,
      AttributeList.Value.text, languageText, commaText, List.append_assoc, List.cons_append,
      List.nil_append, List.append_nil]

theorem audioMediaTag_eq (r : AudioRendition) :
    audioMediaTag r = (Line.attributes .media (audioAttrs r)).text ++ ['\n'] := by
  have hne : ([bare "AUTOSELECT" "YES".toList, bare "DEFAULT" (yesNo r.isDefault)] ++
      (r.uri.map (quoted "URI")).toList : Attrs) ≠ [] := List.cons_ne_nil _ _
  unfold audioMediaTag audioAttrs Line.text
  simp only [List.append_assoc (_ ++ _), AttributeList.text_append _ hne, languageAttr_eq]
  obtain ⟨name, language, isDefault, uri⟩ := r
  cases uri with
  | none =>
    simp only [audioText, nameText, commaText, defaultText, newlineText, quoted, bare, yesNo,
      AttributeList.text, AttributeList.attrText, AttributeList.Value.text, Option.map_none,
      Option.toList, List.append_nil, List.append_assoc, List.cons_append, List.nil_append,
      List.flatMap_cons]
  | some uri =>
    simp only [audioText, nameText, commaText, defaultText, newlineText, uriText, quoteText, quoted,
      bare, yesNo, AttributeList.text, AttributeList.attrText, AttributeList.Value.text,
      Option.map_some, Option.toList, List.append_assoc, List.cons_append, List.nil_append,
      List.flatMap_cons]

theorem mediaTag_eq (s : SidecarSubtitle) :
    mediaTag s = (Line.attributes .media (subsAttrs s)).text ++ ['\n'] := by
  have hne : [bare "AUTOSELECT" "YES".toList, bare "DEFAULT" "NO".toList,
      bare "FORCED" (yesNo s.forced), quoted "URI" subsPlaylistName] ≠ [] := List.cons_ne_nil _ _
  unfold mediaTag subsAttrs Line.text
  simp only [AttributeList.text_append _ hne, languageAttr_eq]
  simp only [subsText, commaText, forcedText, uriText, endText, quoted, bare, yesNo,
    AttributeList.text, AttributeList.attrText, AttributeList.Value.text, List.append_assoc,
    List.cons_append, List.nil_append, List.flatMap_cons]

theorem variantAttrs_eq (resolution : Option (ℕ × ℕ)) (audio : List AudioRendition)
    (subs : Option SidecarSubtitle) : variantAttrs resolution audio subs =
      ((resolution.map fun r =>
          bare "RESOLUTION" (Decimal.text r.1 ++ 'x' :: Decimal.text r.2)).toList ++
        (if decide (audio ≠ []) = true then [quoted "AUDIO" audioGroupId] else []) ++
        (if subs.isSome then [quoted "SUBTITLES" "subs".toList] else [])).flatMap
          fun b => ',' :: AttributeList.attrText b := by
  rw [List.flatMap_append, List.flatMap_append]
  unfold variantAttrs
  congr 1
  · congr 1
    · rcases resolution with _ | ⟨w, h⟩
      · rfl
      · simp only [resolutionText, timesText, bare, AttributeList.attrText,
          AttributeList.Value.text, Option.map_some, Option.toList, List.flatMap_cons,
          List.flatMap_nil, List.append_assoc, List.cons_append, List.nil_append, List.append_nil]
    · by_cases h : audio = []
      · simp only [h, if_true, ne_eq, not_true_eq_false, decide_false, Bool.false_eq_true, if_false,
          List.flatMap_nil]
      · simp only [h, if_false, ne_eq, not_false_eq_true, decide_true, if_true, audioGroupText,
          quoteText, quoted, AttributeList.attrText, AttributeList.Value.text, List.flatMap_cons,
          List.flatMap_nil, List.append_assoc, List.cons_append, List.nil_append, List.append_nil]
  · split
    · simp only [subsGroupText, quoted, AttributeList.attrText, AttributeList.Value.text,
        List.flatMap_cons, List.flatMap_nil, List.append_nil]
    · rfl

theorem textOf_append (l l' : List Line) : textOf (l ++ l') = textOf l ++ textOf l' :=
  List.flatMap_append

theorem textOf_stream (bandwidth : ℕ) (resolution : Option (ℕ × ℕ)) (audio : List AudioRendition)
    (subs : Option SidecarSubtitle) (uri : List Char) :
    textOf [.attributes .streamInf
        (streamAttrs bandwidth resolution (audio ≠ []) subs.isSome), .uri uri] =
      "#EXT-X-STREAM-INF:BANDWIDTH=".toList ++ (Decimal.text bandwidth ++
        (variantAttrs resolution audio subs ++ '\n' :: (uri ++ ['\n']))) := by
  unfold textOf streamAttrs
  rw [variantAttrs_eq]
  simp only [List.flatMap_cons, List.flatMap_nil, Line.text, AttributeList.text_cons]
  simp only [streamText, bare, AttributeList.attrText, AttributeList.Value.text, List.append_assoc,
    List.cons_append, List.nil_append, List.append_nil]

theorem flatMap_audioMediaTag (audio : List AudioRendition) : audio.flatMap audioMediaTag =
    textOf (audio.map fun r => .attributes .media (audioAttrs r)) := by
  rw [textOf, List.flatMap_map]
  exact congrArg (List.flatMap · audio) (funext audioMediaTag_eq)

/-- **A master playlist has the lines that are meant.** -/
theorem master_eq (bandwidth : ℕ) (resolution : Option (ℕ × ℕ)) (includeIframe : Bool)
    (subs : Option SidecarSubtitle) (audio : List AudioRendition) :
    master bandwidth resolution includeIframe subs audio =
      textOf (masterLines bandwidth resolution includeIframe subs audio) := by
  have hiframe : (if includeIframe = true then
      "#EXT-X-I-FRAME-STREAM-INF:BANDWIDTH=".toList ++ (Decimal.text iframeBandwidthBps ++
        (",URI=\"".toList ++ (iframePlaylistName ++ "\"\n".toList))) else []) =
      textOf (if includeIframe = true then [.attributes .iFrameStreamInf
        [bare "BANDWIDTH" (Decimal.text iframeBandwidthBps), quoted "URI" iframePlaylistName]]
        else []) := by
    split
    · simp only [textOf, Line.text, iframeText, uriText, endText, bare, quoted, AttributeList.text,
        AttributeList.attrText, AttributeList.Value.text, List.flatMap_cons, List.flatMap_nil,
        List.append_assoc, List.cons_append, List.nil_append, List.append_nil]
    · rfl
  have hsubs : (subs.map mediaTag).getD [] =
      textOf (subs.map fun s => Line.attributes .media (subsAttrs s)).toList := by
    rcases subs with _ | s
    · rfl
    · simp only [Option.map_some, Option.getD_some, mediaTag_eq, textOf, Option.toList,
        List.flatMap_cons, List.flatMap_nil, List.append_nil]
  unfold master masterLines playlistLines
  simp only [textOf_append, textOf_stream, hiframe, hsubs, flatMap_audioMediaTag, headerText,
    newlineText, List.append_assoc, List.cons_append, List.nil_append]

theorem audioMaster_eq {bandwidth : ℕ} {audio : List AudioRendition} (h : audio ≠ []) :
    audioMaster bandwidth audio = textOf (audioMasterLines bandwidth audio) := by
  have haudio : variantAttrs none audio none =
      ",AUDIO=\"".toList ++ (audioGroupId ++ ['"']) := by
    unfold variantAttrs
    simp only [if_neg h, Option.isSome_none, Bool.false_eq_true, if_false, List.append_nil,
      List.nil_append, quoteText, List.append_assoc]
  unfold audioMaster audioMasterLines playlistLines
  simp only [textOf_append, textOf_stream, haudio, flatMap_audioMediaTag, headerText', indexText,
    Bool.false_eq_true, if_false, Option.map_none, Option.toList, List.append_assoc,
    List.cons_append, List.nil_append]

/-! ### What is meant is well formed -/

def Writable (s : List Char) : Prop := ∀ c ∈ s, quotable c = true

structure Clean (r : AudioRendition) : Prop where
  name : Writable r.name
  language : Writable ((r.language.map (trimMatches whiteSpace)).getD [])
  uri : ∀ u ∈ r.uri, Writable u

theorem attrOk_quoted {name : String} {v : List Char}
    (hname : name.toList ≠ [] ∧ name.toList.all AttributeList.isName = true) (hv : Writable v) :
    AttributeList.AttrOk (quoted name v) :=
  ⟨hname.1, List.all_eq_true.mp hname.2, hv⟩

theorem attrOk_bare {name : String} {v : List Char}
    (hname : name.toList ≠ [] ∧ name.toList.all AttributeList.isName = true)
    (hv : v ≠ [] ∧ v.all AttributeList.isBare = true) : AttributeList.AttrOk (bare name v) :=
  ⟨hname.1, List.all_eq_true.mp hname.2, hv.1, List.all_eq_true.mp hv.2⟩

theorem isBare_yesNo (b : Bool) : yesNo b ≠ [] ∧ (yesNo b).all AttributeList.isBare = true := by
  cases b <;> decide

theorem isBare_of_isDigit {c : Char} (h : c.isDigit = true) : AttributeList.isBare c = true := by
  have hval : 48 ≤ c.val ∧ c.val ≤ 57 := by simpa [Char.isDigit] using h
  have hne : ∀ d : Char, (d.val < 48 ∨ 57 < d.val) → c ≠ d := by
    rintro d hd rfl
    rcases hd with hd | hd
    · exact absurd hval.1 (UInt32.not_le.mpr hd)
    · exact absurd hval.2 (UInt32.not_le.mpr hd)
  have hquote := hne '"' (Or.inl (by decide))
  have hcomma := hne ',' (Or.inl (by decide))
  have hspace := hne ' ' (Or.inl (by decide))
  have htab := hne '\t' (Or.inl (by decide))
  have hcr := hne '\r' (Or.inl (by decide))
  have hlf := hne '\n' (Or.inl (by decide))
  simp [AttributeList.isBare, Char.isWhitespace, hquote, hcomma, hspace, htab, hcr, hlf]

theorem isBare_text (n : ℕ) : (Decimal.text n).all AttributeList.isBare = true :=
  List.all_eq_true.mpr fun _ hc => isBare_of_isDigit (Decimal.isDigit_of_mem_text hc)

theorem value_unique {attrs : Attrs} (h : (attrs.map Prod.fst).Nodup) {name : List Char}
    {v w : Value} (hv : (name, v) ∈ attrs) (hw : (name, w) ∈ attrs) : v = w :=
  congrArg Prod.snd (List.inj_on_of_nodup_map h hv hw rfl)

theorem nodup_audioAttrs (r : AudioRendition) : ((audioAttrs r).map Prod.fst).Nodup := by
  unfold audioAttrs languageAttrs
  obtain ⟨name, language, isDefault, uri⟩ := r
  split
  · cases uri
    · show ["TYPE".toList, "GROUP-ID".toList, "NAME".toList, "AUTOSELECT".toList,
        "DEFAULT".toList].Nodup
      decide
    · show ["TYPE".toList, "GROUP-ID".toList, "NAME".toList, "AUTOSELECT".toList,
        "DEFAULT".toList, "URI".toList].Nodup
      decide
  · cases uri
    · show ["TYPE".toList, "GROUP-ID".toList, "NAME".toList, "LANGUAGE".toList,
        "AUTOSELECT".toList, "DEFAULT".toList].Nodup
      decide
    · show ["TYPE".toList, "GROUP-ID".toList, "NAME".toList, "LANGUAGE".toList,
        "AUTOSELECT".toList, "DEFAULT".toList, "URI".toList].Nodup
      decide

theorem nodup_subsAttrs (s : SidecarSubtitle) : ((subsAttrs s).map Prod.fst).Nodup := by
  unfold subsAttrs languageAttrs
  split
  · show ["TYPE".toList, "GROUP-ID".toList, "NAME".toList, "AUTOSELECT".toList, "DEFAULT".toList,
      "FORCED".toList, "URI".toList].Nodup
    decide
  · show ["TYPE".toList, "GROUP-ID".toList, "NAME".toList, "LANGUAGE".toList,
      "AUTOSELECT".toList, "DEFAULT".toList, "FORCED".toList, "URI".toList].Nodup
    decide

theorem nodup_streamAttrs (bandwidth : ℕ) (resolution : Option (ℕ × ℕ)) (audio subs : Bool) :
    ((streamAttrs bandwidth resolution audio subs).map Prod.fst).Nodup := by
  have hall : ["BANDWIDTH".toList, "RESOLUTION".toList, "AUDIO".toList,
      "SUBTITLES".toList].Nodup := by
    decide
  refine hall.sublist ?_
  refine List.Sublist.cons_cons _ ?_
  rw [List.map_append, List.map_append]
  show List.Sublist _ (["RESOLUTION".toList] ++ ["AUDIO".toList] ++ ["SUBTITLES".toList])
  refine List.Sublist.append (List.Sublist.append ?_ ?_) ?_
  · cases resolution
    · exact List.nil_sublist _
    · exact List.Sublist.refl _
  · cases audio
    · exact List.nil_sublist _
    · exact List.Sublist.refl _
  · cases subs
    · exact List.nil_sublist _
    · exact List.Sublist.refl _

/-! ### The lines can be written -/

section lines

variable {r : AudioRendition} {s : SidecarSubtitle} {line : Line}

theorem attrOk_languageAttrs {language : List Char} (h : Writable language) :
    ∀ a ∈ languageAttrs language, AttributeList.AttrOk a := by
  intro a ha
  rw [languageAttrs] at ha
  split at ha
  · cases ha
  · obtain rfl := List.mem_singleton.mp ha
    exact attrOk_quoted (by decide) h

theorem attrOk_audioAttrs (h : Clean r) : ∀ a ∈ audioAttrs r, AttributeList.AttrOk a := by
  intro a ha
  simp only [audioAttrs, List.mem_append, List.mem_cons, List.not_mem_nil, or_false,
    Option.mem_toList] at ha
  rcases ha with (((rfl | rfl | rfl) | ha) | rfl | rfl) | ha
  · exact attrOk_bare (by decide) (by decide)
  · exact attrOk_quoted (by decide) (List.all_eq_true.mp (by decide))
  · exact attrOk_quoted (by decide) h.name
  · exact attrOk_languageAttrs h.language a ha
  · exact attrOk_bare (by decide) (by decide)
  · exact attrOk_bare (by decide) (isBare_yesNo _)
  · obtain ⟨u, hu, rfl⟩ := Option.map_eq_some_iff.mp ha
    exact attrOk_quoted (by decide) (h.uri u hu)

theorem writable_name (h : Writable s.lang) : Writable s.name := by
  unfold SidecarSubtitle.name
  split
  · exact List.all_eq_true.mp (by decide)
  · exact h

theorem attrOk_subsAttrs (h : Writable s.lang) :
    ∀ a ∈ subsAttrs s, AttributeList.AttrOk a := by
  intro a ha
  simp only [subsAttrs, List.mem_append, List.mem_cons, List.not_mem_nil, or_false] at ha
  rcases ha with ((rfl | rfl | rfl) | ha) | rfl | rfl | rfl | rfl
  · exact attrOk_bare (by decide) (by decide)
  · exact attrOk_quoted (by decide) (List.all_eq_true.mp (by decide))
  · exact attrOk_quoted (by decide) (writable_name h)
  · exact attrOk_languageAttrs h a ha
  · exact attrOk_bare (by decide) (by decide)
  · exact attrOk_bare (by decide) (by decide)
  · exact attrOk_bare (by decide) (isBare_yesNo _)
  · exact attrOk_quoted (by decide) (List.all_eq_true.mp (by decide))

theorem attrOk_streamAttrs (bandwidth : ℕ) (resolution : Option (ℕ × ℕ)) (audio subs : Bool) :
    ∀ a ∈ streamAttrs bandwidth resolution audio subs, AttributeList.AttrOk a := by
  intro a ha
  simp only [streamAttrs, List.mem_append, List.mem_cons, Option.mem_toList] at ha
  rcases ha with rfl | (ha | ha) | ha
  · exact attrOk_bare (by decide) ⟨Decimal.text_ne_nil _, isBare_text _⟩
  · obtain ⟨⟨w, h⟩, -, rfl⟩ := Option.map_eq_some_iff.mp ha
    refine attrOk_bare (by decide) ⟨by simp, ?_⟩
    have hx : AttributeList.isBare 'x' = true := by decide
    rw [List.all_append, List.all_cons, isBare_text, isBare_text, hx]
    rfl
  · split at ha
    · obtain rfl := List.mem_singleton.mp ha
      exact attrOk_quoted (by decide) (List.all_eq_true.mp (by decide))
    · cases ha
  · split at ha
    · obtain rfl := List.mem_singleton.mp ha
      exact attrOk_quoted (by decide) (List.all_eq_true.mp (by decide))
    · cases ha

theorem ok_header (h : line ∈ header) : line.Ok := by
  simp only [header, List.mem_cons, List.not_mem_nil, or_false] at h
  rcases h with rfl | rfl
  · exact ⟨by decide, by decide, by decide⟩
  · exact ⟨by decide, by decide, by decide⟩

/-- **A playlist with names that can be written is read again.** -/
theorem ok_playlistLines {uri : List Char} (huri : (Line.uri uri).Ok)
    {audio : List AudioRendition} (haudio : ∀ r ∈ audio, Clean r) {subs : Option SidecarSubtitle}
    (hsubs : ∀ s ∈ subs, Writable s.lang) {bandwidth : ℕ} {resolution : Option (ℕ × ℕ)}
    {includeIframe : Bool}
    (hline : line ∈ playlistLines uri bandwidth resolution includeIframe subs audio) :
    line.Ok := by
  simp only [playlistLines, List.mem_append, List.mem_cons, List.mem_map, Option.mem_toList,
    List.not_mem_nil, or_false] at hline
  rcases hline with (((hline | hline) | ⟨r, hr, rfl⟩) | hline) | rfl | rfl
  · exact ok_header hline
  · split at hline
    · obtain rfl := List.mem_singleton.mp hline
      refine ok_attributes (List.cons_ne_nil _ _) ?_
      intro a ha
      simp only [List.mem_cons, List.not_mem_nil, or_false] at ha
      rcases ha with rfl | rfl
      · exact attrOk_bare (by decide) ⟨Decimal.text_ne_nil _, isBare_text _⟩
      · exact attrOk_quoted (by decide) (List.all_eq_true.mp (by decide))
    · cases hline
  · exact ok_attributes (List.cons_ne_nil _ _) (attrOk_audioAttrs (haudio r hr))
  · obtain ⟨s, hs, rfl⟩ := Option.map_eq_some_iff.mp hline
    exact ok_attributes (List.cons_ne_nil _ _) (attrOk_subsAttrs (hsubs s hs))
  · exact ok_attributes (List.cons_ne_nil _ _) (attrOk_streamAttrs _ _ _ _)
  · exact huri

/-! ### Groups -/

variable {uri group : List Char} {bandwidth : ℕ} {resolution : Option (ℕ × ℕ)}
  {includeIframe : Bool} {subs : Option SidecarSubtitle} {audio : List AudioRendition}

theorem attributes_mem_playlistLines {tag : Tag} {attrs : Attrs}
    (h : Line.attributes tag attrs ∈
      playlistLines uri bandwidth resolution includeIframe subs audio) :
    (tag = .iFrameStreamInf ∧ attrs =
        [bare "BANDWIDTH" (Decimal.text iframeBandwidthBps), quoted "URI" iframePlaylistName]) ∨
      (tag = .media ∧ ∃ r ∈ audio, attrs = audioAttrs r) ∨
      (tag = .media ∧ ∃ s ∈ subs, attrs = subsAttrs s) ∨
      (tag = .streamInf ∧
        attrs = streamAttrs bandwidth resolution (audio ≠ []) subs.isSome) := by
  simp only [playlistLines, header, List.mem_append, List.mem_cons, List.mem_map,
    Option.mem_toList, List.not_mem_nil, or_false, reduceCtorEq, false_or] at h
  rcases h with ((h | ⟨r, hr, h⟩) | h) | h
  · split at h
    · obtain ⟨rfl, rfl⟩ := Line.attributes.inj (List.mem_singleton.mp h)
      exact Or.inl ⟨rfl, rfl⟩
    · cases h
  · obtain ⟨rfl, rfl⟩ := Line.attributes.inj h
    exact Or.inr (Or.inl ⟨rfl, r, hr, rfl⟩)
  · obtain ⟨s, hs, h⟩ := Option.map_eq_some_iff.mp h
    obtain ⟨rfl, rfl⟩ := Line.attributes.inj h
    exact Or.inr (Or.inr (Or.inl ⟨rfl, s, hs, rfl⟩))
  · obtain ⟨rfl, rfl⟩ := Line.attributes.inj h
    exact Or.inr (Or.inr (Or.inr ⟨rfl, rfl⟩))

theorem audio_mem_playlistLines (h : r ∈ audio) : Line.attributes .media (audioAttrs r) ∈
    playlistLines uri bandwidth resolution includeIframe subs audio := by
  simp only [playlistLines, List.mem_append, List.mem_map]
  exact Or.inl (Or.inl (Or.inr ⟨r, h, rfl⟩))

theorem subs_mem_playlistLines (h : s ∈ subs) : Line.attributes .media (subsAttrs s) ∈
    playlistLines uri bandwidth resolution includeIframe subs audio := by
  simp only [playlistLines, List.mem_append, Option.mem_toList]
  exact Or.inl (Or.inr (Option.map_eq_some_iff.mpr ⟨s, h, rfl⟩))

theorem type_mem_audioAttrs (r : AudioRendition) :
    bare "TYPE" "AUDIO".toList ∈ audioAttrs r := List.mem_cons_self

theorem group_mem_audioAttrs (r : AudioRendition) :
    quoted "GROUP-ID" audioGroupId ∈ audioAttrs r := List.mem_cons_of_mem _ List.mem_cons_self

theorem default_mem_audioAttrs (r : AudioRendition) :
    bare "DEFAULT" (yesNo r.isDefault) ∈ audioAttrs r := by
  simp [audioAttrs]

theorem isDefault_audio (r : AudioRendition) :
    Line.isDefault audioGroupId (.attributes .media (audioAttrs r)) = r.isDefault := by
  have htype := List.contains_iff_mem.mpr (type_mem_audioAttrs r)
  have hgroup := List.contains_iff_mem.mpr (group_mem_audioAttrs r)
  have hdefault : (audioAttrs r).contains (bare "DEFAULT" "YES".toList) = r.isDefault := by
    cases hr : r.isDefault with
    | true =>
      have hmem := default_mem_audioAttrs r
      rw [hr] at hmem
      exact List.contains_iff_mem.mpr hmem
    | false =>
      refine Bool.eq_false_iff.mpr fun hcontains => ?_
      have hmem := default_mem_audioAttrs r
      rw [hr] at hmem
      have heq := value_unique (nodup_audioAttrs r) hmem (List.contains_iff_mem.mp hcontains)
      exact absurd heq (by decide)
  simp only [Line.isDefault, htype, hgroup, hdefault, Bool.true_and]

theorem declares_audio (hline : line ∈
      playlistLines uri bandwidth resolution includeIframe subs audio)
    (h : line.declares "AUDIO" group) : group = audioGroupId ∧ audio ≠ [] := by
  rcases line with ⟨tag, attrs⟩ | tag | uri
  · rcases attributes_mem_playlistLines hline with ⟨rfl, -⟩ | ⟨rfl, r, hr, rfl⟩ |
      ⟨rfl, s, -, rfl⟩ | ⟨rfl, -⟩
    · exact h.elim
    · have hgroup := value_unique (nodup_audioAttrs r) h.2 (group_mem_audioAttrs r)
      exact ⟨Value.quoted.inj hgroup, List.ne_nil_of_mem hr⟩
    · have htype : bare "TYPE" "SUBTITLES".toList ∈ subsAttrs s := List.mem_cons_self
      exact absurd (value_unique (nodup_subsAttrs s) h.1 htype) (by decide)
    · exact h.elim
  · exact h.elim
  · exact h.elim

theorem countP_isDefault :
    (playlistLines uri bandwidth resolution includeIframe subs audio).countP
      (Line.isDefault audioGroupId) = audio.countP AudioRendition.isDefault := by
  have hsubs : ∀ s : SidecarSubtitle,
      Line.isDefault audioGroupId (.attributes .media (subsAttrs s)) = false := by
    intro s
    refine Bool.eq_false_iff.mpr fun h => ?_
    rw [Line.isDefault, Bool.and_eq_true, Bool.and_eq_true] at h
    have htype : bare "TYPE" "SUBTITLES".toList ∈ subsAttrs s := List.mem_cons_self
    exact absurd (value_unique (nodup_subsAttrs s) (List.contains_iff_mem.mp h.1.1) htype)
      (by decide)
  have haudio : (audio.map fun r => Line.attributes .media (audioAttrs r)).countP
      (Line.isDefault audioGroupId) = audio.countP AudioRendition.isDefault := by
    rw [List.countP_map]
    exact congrArg (List.countP · audio) (funext isDefault_audio)
  have hiframe : (if includeIframe = true then [Line.attributes .iFrameStreamInf
      [bare "BANDWIDTH" (Decimal.text iframeBandwidthBps), quoted "URI" iframePlaylistName]]
      else []).countP (Line.isDefault audioGroupId) = 0 := by
    split <;> rfl
  have hsubsLines : (subs.map fun s => Line.attributes .media (subsAttrs s)).toList.countP
      (Line.isDefault audioGroupId) = 0 := by
    rcases subs with _ | s
    · rfl
    · exact List.countP_eq_zero.mpr fun line hline => by
        obtain rfl := List.mem_singleton.mp hline
        rw [hsubs s]
        exact Bool.false_ne_true
  unfold playlistLines
  simp only [List.countP_append, hiframe, haudio, hsubsLines]
  show 0 + 0 + _ + 0 + 0 = _
  omega

theorem writable_of_languageAttrs {language : List Char}
    (h : ∀ name v, (name, Value.quoted v) ∈ languageAttrs language → Writable v) :
    Writable language := by
  by_cases hl : language = []
  · rw [hl]
    exact fun c hc => by cases hc
  · refine h "LANGUAGE".toList language ?_
    rw [languageAttrs, if_neg hl]
    exact List.mem_singleton_self _

theorem clean_of_quoted (h : ∀ name v, (name, Value.quoted v) ∈ audioAttrs r → Writable v) :
    Clean r where
  name := h "NAME".toList r.name (by simp [audioAttrs, quoted])
  language := writable_of_languageAttrs fun name v hmem => h name v (by simp [audioAttrs, hmem])
  uri := fun u hu => h "URI".toList u (by
    rw [Option.mem_def] at hu
    simp [audioAttrs, quoted, hu])

/-- **A playlist is well formed if its names can be written**, and only then. -/
theorem wellFormed_iff (huri : (Line.uri uri).Ok)
    (hdefault : audio ≠ [] → audio.countP AudioRendition.isDefault = 1) :
    WellFormed (playlistLines uri bandwidth resolution includeIframe subs audio)
        (textOf (playlistLines uri bandwidth resolution includeIframe subs audio)) ↔
      (∀ r ∈ audio, Clean r) ∧ ∀ s ∈ subs, Writable s.lang := by
  constructor
  · intro h
    have hread := quotable_of_readLines h.reads
    refine ⟨fun r hr => clean_of_quoted (hread _ _ (audio_mem_playlistLines hr)), fun s hs => ?_⟩
    refine writable_of_languageAttrs fun name v hmem =>
      hread _ _ (subs_mem_playlistLines hs) name v ?_
    simp [subsAttrs, hmem]
  · rintro ⟨haudio, hsubs⟩
    refine ⟨readPlaylist_textOf fun line hline => ok_playlistLines huri haudio hsubs hline,
      fun tag attrs hmem => ?_, fun group => ?_, fun attrs hmem kind hkind group hgroup => ?_⟩
    · rcases attributes_mem_playlistLines hmem with ⟨-, rfl⟩ | ⟨-, r, -, rfl⟩ | ⟨-, s, -, rfl⟩ |
        ⟨-, rfl⟩
      · show ["BANDWIDTH".toList, "URI".toList].Nodup
        decide
      · exact nodup_audioAttrs r
      · exact nodup_subsAttrs s
      · exact nodup_streamAttrs _ _ _ _
    · rintro ⟨line, hline, hdeclares⟩
      obtain ⟨rfl, hne⟩ := declares_audio hline hdeclares
      rw [countP_isDefault]
      exact hdefault hne
    · obtain ⟨-, rfl⟩ : Tag.streamInf = .streamInf ∧
          attrs = streamAttrs bandwidth resolution (audio ≠ []) subs.isSome := by
        rcases attributes_mem_playlistLines hmem with ⟨h, -⟩ | ⟨h, -⟩ | ⟨h, -⟩ | h
        · cases h
        · cases h
        · cases h
        · exact h
      simp only [streamAttrs, List.mem_append, List.mem_cons, Option.mem_toList] at hgroup
      simp only [List.mem_cons, List.not_mem_nil, or_false] at hkind
      have hbare : ∀ name v, quoted kind group ≠ bare name v := by
        intro name v heq
        cases congrArg Prod.snd heq
      have hnames : "AUDIO".toList ≠ "SUBTITLES".toList := by decide
      rcases hgroup with h | (h | h) | h
      · exact absurd h (hbare _ _)
      · obtain ⟨r, -, heq⟩ := Option.map_eq_some_iff.mp h
        exact absurd heq.symm (hbare _ _)
      · split at h
        · next hne =>
          have heq := List.mem_singleton.mp h
          obtain rfl : group = audioGroupId := Value.quoted.inj (congrArg Prod.snd heq)
          obtain ⟨r, hr⟩ := List.exists_mem_of_ne_nil audio (of_decide_eq_true hne)
          rcases hkind with rfl | rfl
          · exact ⟨_, audio_mem_playlistLines hr, type_mem_audioAttrs r, group_mem_audioAttrs r⟩
          · exact absurd (congrArg Prod.fst heq).symm hnames
        · cases h
      · split at h
        · next hsome =>
          have heq := List.mem_singleton.mp h
          obtain rfl : group = "subs".toList := Value.quoted.inj (congrArg Prod.snd heq)
          obtain ⟨s, hs⟩ := Option.isSome_iff_exists.mp hsome
          rcases hkind with rfl | rfl
          · exact absurd (congrArg Prod.fst heq) hnames
          · exact ⟨_, subs_mem_playlistLines hs, List.mem_cons_self,
              List.mem_cons_of_mem _ List.mem_cons_self⟩
        · cases h

end lines

/-! ### The group of a session -/

/-- What a track is called in the file: its language, or else its title. -/
def shown (t : AudioTrack) : Option (List Char) :=
  (t.language.filter nonBlank).or (t.title.filter nonBlank)

/-- **The names of the chosen tracks can be written**, if there is a group. -/
def NamesWritable (tracks : List AudioTrack) (primary : ℕ) (extras : List ℕ) : Prop :=
  extras ≠ [] → ∀ idx ∈ primary :: extras, ∀ t ∈ tracks[idx]?, ∀ s ∈ shown t, Writable s

theorem writable_append {s t : List Char} : Writable (s ++ t) ↔ Writable s ∧ Writable t :=
  List.forall_mem_append

theorem writable_text (n : ℕ) : Writable (Decimal.text n) := fun _ hc =>
  AttributeList.quotable_of_isBare (isBare_of_isDigit (Decimal.isDigit_of_mem_text hc))

theorem writable_literal {s : String} (h : s.toList.all quotable = true) : Writable s.toList :=
  List.all_eq_true.mp h

theorem writable_candidate {base : List Char} (n : ℕ) :
    Writable (candidate base n) ↔ Writable base := by
  simp only [candidate, writable_append, writable_text, and_true]
  exact ⟨fun h => h.1.1, fun h => ⟨⟨h, writable_literal (by decide)⟩, writable_literal (by decide)⟩⟩

theorem writable_trim {s : List Char} (h : Writable s) :
    Writable (trimMatches whiteSpace s) := by
  obtain ⟨x, y, hs, -⟩ := Auth.exists_trim whiteSpace s
  rw [hs] at h
  exact (writable_append.mp (writable_append.mp h).2).1

theorem clean_renditionFrom (track : Option AudioTrack) (position : ℕ) (isDefault : Bool)
    (uriIndex : Option ℕ) : Clean (renditionFrom track position isDefault uriIndex) ↔
      ∀ t ∈ track, ∀ s ∈ shown t, Writable s := by
  have hname : (renditionFrom track position isDefault uriIndex).name =
      (track.bind shown).getD ("Audio ".toList ++ Decimal.text (position + 1)) := by
    cases track <;> rfl
  constructor
  · rintro h t rfl s hs
    have hclean := h.name
    rw [hname, Option.bind_some, Option.mem_def.mp hs] at hclean
    exact hclean
  · intro h
    refine ⟨?_, ?_, ?_⟩
    · rw [hname]
      rcases track with _ | t
      · exact writable_append.mpr ⟨writable_literal (by decide), writable_text _⟩
      · rcases hs : shown t with _ | s
        · rw [Option.bind_some, hs]
          exact writable_append.mpr ⟨writable_literal (by decide), writable_text _⟩
        · rw [Option.bind_some, hs]
          exact h t rfl s hs
    · rcases track with _ | t
      · exact fun c hc => by cases hc
      · rcases hl : t.language.filter nonBlank with _ | l
        · simp only [renditionFrom, Option.bind_some, hl]
          exact fun c hc => by cases hc
        · have hshown : shown t = some l := by rw [shown, hl, Option.some_or]
          simp only [renditionFrom, Option.bind_some, hl]
          exact writable_trim (h t rfl l hshown)
    · intro u hu
      obtain ⟨n, -, rfl⟩ := Option.map_eq_some_iff.mp hu
      exact writable_append.mpr ⟨writable_append.mpr
        ⟨writable_literal (by decide), writable_text n⟩, writable_literal (by decide)⟩

theorem clean_of_renamed {r out : AudioRendition} (h : Renamed r out) : Clean out ↔ Clean r := by
  have hname : Writable out.name ↔ Writable r.name := by
    rcases h.name with heq | ⟨n, heq⟩
    · rw [heq]
    · rw [heq, writable_candidate]
  constructor
  · intro hc
    exact ⟨hname.mp hc.name, h.language ▸ hc.language, h.uri ▸ hc.uri⟩
  · intro hc
    exact ⟨hname.mpr hc.name, h.language.symm ▸ hc.language, h.uri.symm ▸ hc.uri⟩

theorem renamed_all {rs out : List AudioRendition} (h : List.Forall₂ Renamed rs out) :
    ((∀ r ∈ out, Clean r) ↔ ∀ r ∈ rs, Clean r) ∧
      out.countP AudioRendition.isDefault = rs.countP AudioRendition.isDefault := by
  induction h with
  | nil => exact ⟨Iff.rfl, rfl⟩
  | cons hr _ ih =>
    refine ⟨?_, ?_⟩
    · rw [List.forall_mem_cons, List.forall_mem_cons, clean_of_renamed hr, ih.1]
    · rw [List.countP_cons, List.countP_cons, hr.isDefault, ih.2]

/-- **The group of a session**: one rendition is played by default, and its lines can be written if
the names of its tracks can. -/
theorem exists_audioGroup (tracks : List AudioTrack) (primary : ℕ) (extras : List ℕ) :
    ∃ audio, (∀ steps, extras.length < steps →
        audioGroup steps tracks primary extras = some audio) ∧
      (audio ≠ [] → audio.countP AudioRendition.isDefault = 1) ∧
      ((∀ r ∈ audio, Clean r) ↔ NamesWritable tracks primary extras) := by
  by_cases hextras : extras = []
  · exact ⟨[], fun _ _ => if_pos hextras, fun h => absurd rfl h,
      fun _ h => absurd hextras h, fun _ r hr => by cases hr⟩
  · let rs := renditionFrom tracks[primary]? primary true none ::
      extras.map fun idx => renditionFrom tracks[idx]? idx false (some idx)
    have hlen : ([] : List (List Char)).length + rs.length ≤ extras.length + 1 := by simp [rs]
    obtain ⟨audio, haudio, -⟩ := exists_dedupeFrom List.nodup_nil hlen
    obtain ⟨hclean, hcount⟩ := renamed_all (forall₂_dedupeFrom haudio)
    refine ⟨audio, fun steps hsteps => (if_neg hextras).trans (dedupeFrom_mono hsteps haudio),
      fun _ => ?_, hclean.trans ?_⟩
    · have hrest : (extras.map fun idx =>
          renditionFrom tracks[idx]? idx false (some idx)).countP AudioRendition.isDefault = 0 := by
        refine List.countP_eq_zero.mpr fun r hr => ?_
        obtain ⟨idx, -, rfl⟩ := List.mem_map.mp hr
        exact Bool.false_ne_true
      rw [hcount, List.countP_cons, hrest]
      rfl
    · simp only [rs, List.forall_mem_cons, List.forall_mem_map, clean_renditionFrom, NamesWritable,
        ne_eq, hextras, not_false_eq_true, forall_const]

/-! ### Well-formed playlists -/

theorem ok_uri {uri : List Char} (hne : uri ≠ []) (hnewline : '\n' ∉ uri)
    (hread : readLine uri = some (.uri uri)) : (Line.uri uri).Ok := ⟨hne, hnewline, hread⟩

/-- **A master playlist is well formed if and only if its names can be written**: what the chosen
audio tracks are called, if there is a group, and the language of the subtitles. The same holds of
the playlist for a web player, which has no subtitles. -/
theorem wellFormed_masters_iff (tracks : List AudioTrack) (primary : ℕ) (extras : List ℕ)
    (subs : Option SidecarSubtitle) (bandwidth : ℕ) (resolution : Option (ℕ × ℕ))
    (includeIframe : Bool) :
    ∃ audio, (∀ steps, extras.length < steps →
        audioGroup steps tracks primary extras = some audio) ∧
      (WellFormed (masterLines bandwidth resolution includeIframe subs audio)
          (master bandwidth resolution includeIframe subs audio) ↔
        NamesWritable tracks primary extras ∧ ∀ s ∈ subs, Writable s.lang) ∧
      ∀ text, webMaster bandwidth audio = some text →
        (WellFormed (audioMasterLines bandwidth audio) text ↔
          NamesWritable tracks primary extras) := by
  obtain ⟨audio, haudio, hdefault, hclean⟩ := exists_audioGroup tracks primary extras
  refine ⟨audio, haudio, ?_, fun text htext => ?_⟩
  · have huri : (Line.uri mediaPlaylistName).Ok := ok_uri (by decide) (by decide) (by decide)
    rw [master_eq, ← hclean]
    exact wellFormed_iff huri hdefault
  · have huri : (Line.uri "index.m3u8".toList).Ok := ok_uri (by decide) (by decide) (by decide)
    rw [webMaster] at htext
    split at htext
    · cases htext
    · next hne =>
      obtain rfl := Option.some.inj htext
      rw [audioMaster_eq hne, ← hclean]
      exact (wellFormed_iff huri hdefault).trans
        ⟨fun h => h.1, fun h => ⟨h, fun s hs => by cases hs⟩⟩

/-- A main track, and a commentary whose title has quotes in it. -/
def quotedTracks : List AudioTrack :=
  [⟨some "eng".toList, none⟩, ⟨none, some "The \"real\" story".toList⟩]

def mainRendition : AudioRendition := ⟨"eng".toList, some "eng".toList, true, none⟩

def commentary : AudioRendition :=
  ⟨"The \"real\" story".toList, none, false, some "audio_1.m3u8".toList⟩

/-- **Quotes in a title**: the group is made, and its playlist is not well formed. -/
theorem not_wellFormed_quotedTracks :
    audioGroup 2 quotedTracks 0 [1] = some [mainRendition, commentary] ∧
    ¬ WellFormed (masterLines 6000000 none false none [mainRendition, commentary])
      (master 6000000 none false none [mainRendition, commentary]) := by
  refine ⟨by decide, fun h => ?_⟩
  have hline : Line.attributes .media (audioAttrs commentary) ∈
      masterLines 6000000 none false none [mainRendition, commentary] :=
    audio_mem_playlistLines (List.mem_cons_of_mem _ (List.mem_singleton_self _))
  have hname : quoted "NAME" commentary.name ∈ audioAttrs commentary :=
    List.mem_cons_of_mem _ (List.mem_cons_of_mem _ List.mem_cons_self)
  have hquote := quotable_of_readLines h.reads _ _ hline _ _ hname
  exact absurd (List.all_eq_true.mpr hquote) (by decide)

end EmeraldExchange.Transcoder.MasterPlaylist
