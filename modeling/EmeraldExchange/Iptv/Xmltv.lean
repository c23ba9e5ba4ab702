import EmeraldExchange.Lib.Lexer
import EmeraldExchange.Lib.Utf8

/-!
# The XMLTV machine

`crates/iptv/src/xmltv.rs`: programmes are read from the events of an XML reader by a small
state machine, which holds the open programme and the text of its open title or description.

The reader is not part of the repository. It is a parameter, `Reader`: a
pull lexer whose text runs up to the next `<` or `&`, and whose markup and references end
with `>` or `;` and are decided by their own characters, so that a comment, a section or a
tag that does not end is an error. It may drop a byte order mark. How a time and a
lower-case letter are read is a parameter too, `Values`.

A text that is read without an error up to an end tag may be cut behind it, and the machine
goes on with the rest as it would have without the cut
(`Machine.parseBytes_append`).

A machine whose flags are off holds no text; that is part of the type.
-/

namespace EmeraldExchange.Iptv

/-! ### Events -/

/-- A start tag: the name and the attributes, in order, each with its unescaped value or with
the error of its reading. -/
structure Tag where
  name : String
  attributes : List (Except String (String × String))

inductive Event
  | text (chars : List Char)
  /-- A reference, with what it stands for as a character and as a predefined entity. -/
  | ref (name : String) (char : Except String (Option Char)) (entity : Option String)
  | start (tag : Tag)
  | empty (tag : Tag)
  | stop (name : String)
  | cdata (chars : List Char)
  /-- A comment, a declaration, an instruction or a document type. -/
  | other

def Event.isMarkup : Event → Bool
  | .text _ | .ref .. => false
  | _ => true

def opens (c : Char) : Bool := c = '<' || c = '&'

/-- The characters that end markup and references. -/
def closes (c : Char) : Bool := c = '>' || c = ';'

/-- **The XML reader.** `start` is what it does to its input before it reads. -/
structure Reader extends Lexer Char Event String opens closes Event.text where
  start : List Char → List Char
  start_append : ∀ s t, s ≠ [] → start (s ++ t) = start s ++ t
  /-- It drops at most a byte order mark. -/
  start_eq : ∀ s, start s = s ∨ s = '\ufeff' :: start s
  /-- What ends with `>` is markup: a reference ends with `;`. -/
  next_markup : ∀ c s t, opens c = true → next (c :: s) = .ok (some (t, [])) →
    (c :: s).getLast? = some '>' → t.isMarkup = true

structure Values where
  toLowercase : String → String
  xmltvTimeToIso : String → Option String

/-! ### End tags -/

def ascii (s : String) : List UInt8 := s.toList.map fun c => UInt8.ofNat c.toNat

/-- `</programme>`. -/
def programmeEnd : List UInt8 := ascii "</programme>"

/-- `</channel>`. -/
def channelEnd : List UInt8 := ascii "</channel>"

/-- What an end tag is for the reader: it opens with its first character, and closes with its
last one only. -/
structure IsEndTag (tag : List UInt8) : Prop where
  ascii : ∀ b ∈ tag, b < 0x80
  mark : Lexer.IsMark opens closes (tag.map fun b => Char.ofNat b.toNat)
  last : (tag.map fun b => Char.ofNat b.toNat).getLast? = some '>'

def EndsInTag (piece : List UInt8) : Prop := ∃ x tag, IsEndTag tag ∧ piece = x ++ tag

theorem lt_of_all {tag : List UInt8} (h : tag.all (· < 0x80) = true) : ∀ b ∈ tag, b < 0x80 :=
  fun b hb => by simpa using List.all_eq_true.mp h b hb

theorem isEndTag_programmeEnd : IsEndTag programmeEnd where
  ascii := lt_of_all (by decide)
  mark := Lexer.isMark_of_all (by decide) (by decide)
  last := by decide

theorem isEndTag_channelEnd : IsEndTag channelEnd where
  ascii := lt_of_all (by decide)
  mark := Lexer.isMark_of_all (by decide) (by decide)
  last := by decide

theorem IsEndTag.ne_nil {tag : List UInt8} (h : IsEndTag tag) : tag ≠ [] := by
  rintro rfl
  cases h.last

theorem EndsInTag.exists_mark {piece : List UInt8} (h : EndsInTag piece) :
    ∃ y mark, Lexer.IsMark opens closes mark ∧ mark.getLast? = some '>' ∧
      Utf8.lossy piece = y ++ mark := by
  obtain ⟨x, tag, htag, rfl⟩ := h
  exact ⟨Utf8.lossy x, _, htag.mark, htag.last, Utf8.lossy_append_ascii htag.ascii x⟩

theorem EndsInTag.lossy_append {piece : List UInt8} (h : EndsInTag piece) (rest : List UInt8) :
    Utf8.lossy (piece ++ rest) = Utf8.lossy piece ++ Utf8.lossy rest := by
  obtain ⟨x, tag, htag, rfl⟩ := h
  exact Utf8.lossy_append_of_ascii htag.ascii htag.ne_nil x rest

theorem lossy_flatten {pieces : List (List UInt8)}
    (h : ∀ piece ∈ pieces.dropLast, EndsInTag piece) :
    Utf8.lossy pieces.flatten = (pieces.map Utf8.lossy).flatten := by
  induction pieces with
  | nil => rfl
  | cons piece pieces ih =>
    cases pieces with
    | nil => simp
    | cons piece' pieces =>
      rw [List.dropLast_cons_cons] at h
      rw [List.flatten_cons, (h piece List.mem_cons_self).lossy_append,
        ih fun p hp => h p (List.mem_cons_of_mem _ hp)]
      rfl

/-! ### The machine -/

structure Programme where
  channelId : String
  startUtc : String
  stopUtc : String
  title : Option String
  description : Option String
  deriving DecidableEq

/-- `<channel>`: the identifier and the names. -/
structure ChannelDef where
  id : String
  names : List String
  deriving DecidableEq

/-- The programmes and channels that were parsed since the last time. -/
structure Batch where
  programmes : List Programme
  channels : List ChannelDef
  deriving DecidableEq

/-- **The machine**: the open programme, and the text of the title or description that is
open. `keep` are the channels to keep, or all. -/
@[ext] structure Machine where
  cur : Option Programme
  inTitle : Bool
  inDesc : Bool
  text : List Char
  keep : Option (List String)
  idle : inTitle = false → inDesc = false → text = []

def jsWs (c : Char) : Bool :=
  c ∈ ['\t', '\n', '\x0b', '\x0c', '\r', ' ', '\u00a0', '\u1680', '\u2028', '\u2029', '\u202f',
    '\u205f', '\u3000', '\ufeff'] || ('\u2000' ≤ c && c ≤ '\u200a')

/-- `trim_matches(js_ws)`. -/
def trim (s : List Char) : List Char := ((s.dropWhile jsWs).reverse.dropWhile jsWs).reverse

/-- Each run of white space as one blank; `prev` tells whether one has begun. -/
def collapse : Bool → List Char → List Char
  | _, [] => []
  | prev, c :: s =>
    if jsWs c then if prev then collapse true s else ' ' :: collapse true s
    else c :: collapse false s

/-- `normalizeEpgChannelId`. -/
def normalizeEpgChannelId (v : Values) (id : String) : String :=
  v.toLowercase (String.ofList (trim id.toList))

/-- The three attributes that a programme uses. -/
structure Slots where
  start : Option String
  stop : Option String
  channel : Option String

/-- Read the attributes of a tag. The first that cannot be read is an error; of those a
programme uses, a later one overwrites an earlier. -/
def slots (programme : Bool) : Slots → List (Except String (String × String)) →
    Except String Slots
  | s, [] => .ok s
  | _, .error e :: _ => .error s!"xmltv_parse:{e}"
  | s, .ok (key, value) :: rest =>
    slots programme
      (if !programme then s
      else if key = "start" then { s with start := some value }
      else if key = "stop" then { s with stop := some value }
      else if key = "channel" then { s with channel := some value }
      else s) rest

namespace Machine

def blank (keep : Option (List String)) : Machine := ⟨none, false, false, [], keep, fun _ _ => rfl⟩

variable (m : Machine)

def inText : Bool := m.inTitle || m.inDesc

def isClean : Bool := m.cur.isNone && !m.inTitle && !m.inDesc

def append (s : List Char) : Machine :=
  if h : m.inText then
    { m with text := m.text ++ s, idle := fun ht hd => by simp [inText, ht, hd] at h }
  else m

/-- The end of a text node: it is trimmed, and its white space collapsed. -/
def closeText (node : List Char) : Machine :=
  if trim node = [] then m else m.append (collapse false (trim node))

/-- The programme of a start tag, with what it keeps. -/
def openProgramme (v : Values) (s : Slots) : Machine :=
  let channelId := (s.channel.map (normalizeEpgChannelId v)).getD ""
  if m.keep.any (channelId ∉ ·) then { m with cur := none }
  else { m with cur :=
    match s.start.bind v.xmltvTimeToIso, s.stop.bind v.xmltvTimeToIso with
    | some startUtc, some stopUtc => some ⟨channelId, startUtc, stopUtc, none, none⟩
    | _, _ => none }

def «open» (v : Values) (tag : Tag) : Except String Machine :=
  match slots (tag.name = "programme") ⟨none, none, none⟩ tag.attributes with
  | .error e => .error e
  | .ok s =>
    if tag.name = "programme" then .ok (m.openProgramme v s)
    else if tag.name = "title" ∧ m.cur.isSome then
      .ok { m with inTitle := true, text := [], idle := fun _ _ => rfl }
    else if tag.name = "desc" ∧ m.cur.isSome then
      .ok { m with inDesc := true, text := [], idle := fun _ _ => rfl }
    else .ok m

/-- The text of a title or a description, if there is any. -/
def taken : Option String := if m.text = [] then none else some (String.ofList m.text)

/-- An end tag, and the programme it completes. -/
def close (name : String) : Machine × List Programme :=
  match m.cur with
  | none => (m, [])
  | some cur =>
    if name = "title" ∧ m.inTitle then
      ({ m with
        cur := some { cur with title := m.taken }
        inTitle := false
        text := []
        idle := fun _ _ => rfl }, [])
    else if name = "desc" ∧ m.inDesc then
      ({ m with
        cur := some { cur with description := m.taken }
        inDesc := false
        text := []
        idle := fun _ _ => rfl }, [])
    else if name = "programme" then
      ({ m with cur := none }, if cur.channelId = "" then [] else [cur])
    else (m, [])

def pushRef (node : List Char) (name : String) (char : Except String (Option Char))
    (entity : Option String) : Except String (List Char) :=
  match char, entity with
  | .error e, _ => .error s!"xmltv_parse:{e}"
  | .ok (some c), _ => .ok (node ++ [c])
  | .ok none, some s => .ok (node ++ s.toList)
  | .ok none, none => .error s!"xmltv_parse:unknown entity &{name};"

/-- What an event other than text does, the text node before it being closed. -/
def markup (v : Values) : Event → Except String (Machine × List Programme)
  | .start tag =>
    match m.open v tag with
    | .ok m => .ok (m, [])
    | .error e => .error e
  | .empty tag =>
    match m.open v tag with
    | .ok m => .ok (m.close tag.name)
    | .error e => .error e
  | .stop name => .ok (m.close name)
  | .cdata s => .ok (m.append s, [])
  | _ => .ok (m, [])

/-- **The machine on a list of events**: what it is after them, the text node that is open, and
the programmes. -/
def run (v : Values) : Machine → List Char → List Event →
    Except String (Machine × List Char × List Programme)
  | m, node, [] => .ok (m, node, [])
  | m, node, .text s :: rest => run v m (node ++ s) rest
  | m, node, .ref name char entity :: rest =>
    match pushRef node name char entity with
    | .ok node => run v m node rest
    | .error e => .error e
  | m, node, e :: rest =>
    match (m.closeText node).markup v e with
    | .ok (m, out) =>
      match run v m [] rest with
      | .ok (m, node, out') => .ok (m, node, out ++ out')
      | .error e => .error e
    | .error e => .error e

def read (R : Reader) (v : Values) (node s : List Char) :
    Except String (Machine × List Programme) :=
  match run v m node (R.scan s).1 with
  | .error e => .error e
  | .ok (m, node, out) =>
    match (R.scan s).2 with
    | some e => .error s!"xmltv_parse:{e}"
    | none => .ok (m.closeText node, out)

/-- **Parse a text**: the machine at its end, and its programmes. -/
def parse (R : Reader) (v : Values) (s : List Char) : Except String (Machine × List Programme) :=
  m.read R v [] (R.start s)

/-- **Parse bytes.** -/
def parseBytes (R : Reader) (v : Values) (bytes : List UInt8) :
    Except String (Machine × List Programme) :=
  m.parse R v (Utf8.lossy bytes)

/-! ### Reading in parts -/

section parts

variable {m : Machine} {R : Reader} {v : Values}

theorem eq_blank (h : m.isClean = true) : m = blank m.keep := by
  obtain ⟨⟨hcur, htitle⟩, hdesc⟩ : (m.cur = none ∧ m.inTitle = false) ∧ m.inDesc = false := by
    simpa [isClean] using h
  ext1 <;> first
    | assumption
    | exact m.idle htitle hdesc
    | rfl

theorem closeText_cons {c : Char} (hc : jsWs c = true) (node : List Char) :
    m.closeText (c :: node) = m.closeText node := by
  have htrim : trim (c :: node) = trim node := by simp [trim, hc]
  rw [closeText, closeText, htrim]

theorem run_node {node node' : List Char}
    (h : ∀ s, m.closeText (node ++ s) = m.closeText (node' ++ s)) (events : List Event) :
    (run v m node events).map (fun r => (r.1.closeText r.2.1, r.2.2)) =
      (run v m node' events).map fun r => (r.1.closeText r.2.1, r.2.2) := by
  induction events generalizing node node' with
  | nil => simpa [run, Except.map] using h []
  | cons e events ih =>
    have hclose : m.closeText node = m.closeText node' := by simpa using h []
    have hadd : ∀ t s, m.closeText (node ++ t ++ s) = m.closeText (node' ++ t ++ s) := by
      intro t s
      rw [List.append_assoc, List.append_assoc, h]
    cases e with
    | text s => exact ih (hadd s)
    | ref name char entity =>
      simp only [run, pushRef]
      cases char with
      | error e => rfl
      | ok char =>
        cases char with
        | some c => exact ih (hadd [c])
        | none =>
          cases entity with
          | some s => exact ih (hadd s.toList)
          | none => rfl
    | _ => simp only [run, hclose]

theorem run_append (m : Machine) (node : List Char) (es fs : List Event) :
    run v m node (es ++ fs) =
      match run v m node es with
      | .error e => .error e
      | .ok (m', node', out) =>
        match run v m' node' fs with
        | .error e => .error e
        | .ok (m'', node'', out') => .ok (m'', node'', out ++ out') := by
  induction es generalizing m node with
  | nil =>
    simp only [List.nil_append, run]
    cases run v m node fs <;> rfl
  | cons e es ih =>
    cases e with
    | text s => exact ih _ _
    | ref name char entity =>
      simp only [List.cons_append, run]
      cases pushRef node name char entity with
      | error e => rfl
      | ok node => exact ih _ _
    | _ =>
      simp only [List.cons_append, run]
      split
      · next m' out _ =>
        rw [ih]
        cases run v m' [] es with
        | error e => rfl
        | ok r =>
          simp only
          cases run v r.1 r.2.1 fs with
          | error e => rfl
          | ok r' => simp
      · rfl

theorem read_eq (m : Machine) (node s : List Char) :
    m.read R v node s =
      match (run v m node (R.scan s).1).map fun r => (r.1.closeText r.2.1, r.2.2) with
      | .error e => .error e
      | .ok r =>
        match (R.scan s).2 with
        | some e => .error s!"xmltv_parse:{e}"
        | none => .ok r := by
  unfold read
  cases run v m node (R.scan s).1 <;> rfl

theorem read_of_passes {s q : List Char} {ts : List Event} (h : R.Passes s ts q) (m : Machine)
    (node : List Char) :
    m.read R v node s =
      match run v m node ts with
      | .error e => .error e
      | .ok (m', node', out) =>
        match m'.read R v node' q with
        | .error e => .error e
        | .ok (m'', out') => .ok (m'', out ++ out') := by
  simp only [read, h.scan, run_append]
  cases run v m node ts with
  | error e => rfl
  | ok r =>
    simp only
    cases run v r.1 r.2.1 (R.scan q).1 with
    | error e => rfl
    | ok r' =>
      simp only
      cases (R.scan q).2 <;> rfl

theorem read_start (m : Machine) (s : List Char) :
    m.read R v [] (R.start s) = m.read R v [] s := by
  rcases R.start_eq s with hs | hs
  · rw [hs]
  · obtain ⟨used, rest, hscan, hscan'⟩ :=
      Lexer.scan_cons_text (L := R.toLexer) (c := '\ufeff') rfl (R.start s)
    have hdrop : ∀ s, m.closeText ('\ufeff' :: s) = m.closeText s := closeText_cons rfl
    rw [← hs] at hscan
    rw [read_eq, read_eq, hscan]
    rcases hscan' with ⟨rfl, hscan'⟩ | hscan'
    · have hsame : ∀ s, m.closeText ([] ++ s) = m.closeText (['\ufeff'] ++ s) :=
        fun s => (hdrop s).symm
      rw [hscan']
      simp only [run]
      rw [run_node hsame]
      rfl
    · have hsame : ∀ s, m.closeText ([] ++ used ++ s) =
          m.closeText ([] ++ '\ufeff' :: used ++ s) := fun s => (hdrop (used ++ s)).symm
      rw [hscan']
      simp only [run]
      rw [run_node hsame]

theorem scan_start (s : List Char) : (R.scan (R.start s)).2 = (R.scan s).2 := by
  rcases R.start_eq s with hs | hs
  · rw [hs]
  · obtain ⟨used, rest, hscan, hscan'⟩ :=
      Lexer.scan_cons_text (L := R.toLexer) (c := '\ufeff') rfl (R.start s)
    rw [← hs] at hscan
    rcases hscan' with ⟨-, hscan'⟩ | hscan' <;> rw [hscan, hscan']

/-! ### Reading on behind an end tag -/

theorem run_concat_markup {m m' : Machine} {node node' : List Char} {ts : List Event} {t : Event}
    {out : List Programme} (ht : t.isMarkup = true)
    (h : run v m node (ts ++ [t]) = .ok (m', node', out)) : node' = [] := by
  rw [run_append] at h
  split at h
  · cases h
  · next m₁ node₁ out₁ _ =>
    have hlast : ∀ r, run v m₁ node₁ [t] = .ok r → r.2.1 = [] := by
      intro r hr
      cases t with
      | text s => cases ht
      | ref name char entity => cases ht
      | _ =>
        simp only [run] at hr
        split at hr
        · obtain rfl := Except.ok.inj hr
          rfl
        · cases hr
    split at h
    · cases h
    · next hrun =>
      obtain ⟨-, rfl, -⟩ : _ = m' ∧ _ = node' ∧ _ = out := by simpa using h
      exact hlast _ hrun

/-- **A text may be cut behind an end tag**, if it is read up to there without an error: the
machine goes on with the rest. -/
theorem read_append {x mark : List Char} (hmark : Lexer.IsMark opens closes mark)
    (hlast : mark.getLast? = some '>') (hscan : (R.scan (x ++ mark)).2 = none) (m : Machine)
    (q : List Char) :
    m.read R v [] (x ++ mark ++ q) =
      match m.read R v [] (x ++ mark) with
      | .error e => .error e
      | .ok (m', out) =>
        match m'.read R v [] q with
        | .error e => .error e
        | .ok (m'', out') => .ok (m'', out ++ out') := by
  have hpass := Lexer.passes_of_scan hmark q (Or.inr ⟨x, rfl⟩) hscan
  obtain ⟨ts, t, c, s, hts, hc, hnext, y, hy⟩ := Lexer.exists_last_of_scan hmark x hscan
  have ht : t.isMarkup = true := by
    refine R.next_markup c s t hc hnext ?_
    rw [hy, List.getLast?_append, hlast]
    rfl
  rw [read_of_passes hpass, read, hscan, hts]
  cases hrun : run v m [] (ts ++ [t]) with
  | error e => rfl
  | ok r =>
    obtain ⟨m', node', out⟩ := r
    obtain rfl := run_concat_markup ht hrun
    rfl

theorem parseBytes_eq (m : Machine) (bytes : List UInt8) :
    m.parseBytes R v bytes = m.read R v [] (Utf8.lossy bytes) := read_start m _

theorem parseBytes_nil (m : Machine) : m.parseBytes R v [] = .ok (m, []) := by
  rw [parseBytes_eq, read, Utf8.lossy_nil, Lexer.scan_nil]
  rfl

/-- **Bytes may be cut behind an end tag.** -/
theorem parseBytes_append {piece : List UInt8} (h : EndsInTag piece)
    (hscan : (R.scan (Utf8.lossy piece)).2 = none) (m : Machine) (rest : List UInt8) :
    m.parseBytes R v (piece ++ rest) =
      match m.parseBytes R v piece with
      | .error e => .error e
      | .ok (m', out) =>
        match m'.parseBytes R v rest with
        | .error e => .error e
        | .ok (m'', out') => .ok (m'', out ++ out') := by
  obtain ⟨y, mark, hmark, hlast, hlossy⟩ := h.exists_mark
  rw [hlossy] at hscan
  simp only [parseBytes_eq, h.lossy_append, hlossy]
  exact read_append hmark hlast hscan m _

theorem parseBytes_eq_none {piece : List UInt8} (h : (R.scan (Utf8.lossy piece)).2 ≠ none)
    (m : Machine) : (m.parseBytes R v piece).toOption = none := by
  obtain ⟨e, he⟩ := Option.ne_none_iff_exists'.mp h
  rw [parseBytes_eq, read_eq, he]
  cases (run v m [] (R.scan (Utf8.lossy piece)).1).map fun r => (r.1.closeText r.2.1, r.2.2) <;>
    rfl

/-! ### What is kept stays -/

@[simp] theorem append_keep (s : List Char) : (m.append s).keep = m.keep := by
  unfold append; split <;> rfl

@[simp] theorem closeText_keep (node : List Char) : (m.closeText node).keep = m.keep := by
  unfold closeText; split <;> simp

theorem open_keep {m' : Machine} {tag : Tag} (h : m.open v tag = .ok m') : m'.keep = m.keep := by
  unfold Machine.open at h
  split at h
  · cases h
  · repeat' split at h
    all_goals
      obtain rfl := Except.ok.inj h
      first
        | rfl
        | (unfold openProgramme; simp only; split <;> rfl)

@[simp] theorem close_keep (name : String) : (m.close name).1.keep = m.keep := by
  unfold close
  repeat' split
  all_goals rfl

theorem markup_keep {m' : Machine} {e : Event} {out : List Programme}
    (h : m.markup v e = .ok (m', out)) : m'.keep = m.keep := by
  cases e with
  | start tag =>
    simp only [markup] at h
    split at h
    · next hopen =>
      obtain ⟨rfl, -⟩ := Prod.mk.inj (Except.ok.inj h)
      exact open_keep hopen
    · cases h
  | empty tag =>
    simp only [markup] at h
    split at h
    · next m₁ hopen =>
      have hm : (m₁.close tag.name).1 = m' := congrArg Prod.fst (Except.ok.inj h)
      rw [← hm, close_keep, open_keep hopen]
    · cases h
  | stop name =>
    have hm : (m.close name).1 = m' := congrArg Prod.fst (Except.ok.inj h)
    rw [← hm, close_keep]
  | cdata s =>
    obtain ⟨rfl, -⟩ := Prod.mk.inj (Except.ok.inj h)
    exact append_keep s
  | _ =>
    obtain ⟨rfl, -⟩ := Prod.mk.inj (Except.ok.inj h)
    rfl

theorem run_keep {m' : Machine} {node node' : List Char} {events : List Event}
    {out : List Programme} (h : run v m node events = .ok (m', node', out)) :
    m'.keep = m.keep := by
  induction events generalizing m node out with
  | nil =>
    obtain ⟨rfl, -⟩ := Prod.mk.inj (Except.ok.inj h)
    rfl
  | cons e events ih =>
    cases e with
    | text s => exact ih h
    | ref name char entity =>
      simp only [run] at h
      split at h
      · exact ih h
      · cases h
    | _ =>
      simp only [run] at h
      split at h
      · next m₁ out₁ hmarkup =>
        split at h
        · next hrest =>
          obtain ⟨rfl, rfl, -⟩ : _ = m' ∧ _ = node' ∧ _ = out := by simpa using h
          rw [ih hrest, markup_keep hmarkup, closeText_keep]
        · cases h
      · cases h

theorem parseBytes_keep {m' : Machine} {bytes : List UInt8} {out : List Programme}
    (h : m.parseBytes R v bytes = .ok (m', out)) : m'.keep = m.keep := by
  rw [parseBytes_eq, read] at h
  split at h
  · cases h
  · next hrun =>
    split at h
    · cases h
    · obtain ⟨rfl, -⟩ := Prod.mk.inj (Except.ok.inj h)
      rw [closeText_keep, run_keep hrun]

end parts

end Machine

/-! ### Pieces of a text -/

/-- **Each piece but the first begins between two events**: the reader, reading the whole,
comes to where it begins. -/
def BetweenEvents (R : Reader) (pieces : List (List UInt8)) : Prop :=
  ∀ before after, pieces = before ++ after → before ≠ [] → after ≠ [] →
    ∃ ts, R.Passes (R.start (Utf8.lossy pieces.flatten)) ts (Utf8.lossy after.flatten)

theorem lossy_ne_nil {piece : List UInt8} (h : EndsInTag piece) : Utf8.lossy piece ≠ [] := by
  obtain ⟨y, mark, hmark, -, hlossy⟩ := h.exists_mark
  rw [hlossy]
  exact hmark.append_ne_nil y

theorem exists_mark_start {R : Reader} {piece : List UInt8} (h : EndsInTag piece) :
    ∃ x mark, Lexer.IsMark opens closes mark ∧ R.start (Utf8.lossy piece) = x ++ mark := by
  obtain ⟨y, mark, hmark, -, hlossy⟩ := h.exists_mark
  rw [hlossy]
  rcases R.start_eq (y ++ mark) with hs | hs
  · exact ⟨y, mark, hmark, hs⟩
  · cases y with
    | nil =>
      have hhead := hmark.head
      rw [List.nil_append] at hs
      rw [hs] at hhead
      cases hhead
    | cons c y => exact ⟨y, mark, hmark, (List.cons.inj hs).2.symm⟩

/-- Pieces that end with end tags are cut between events exactly if each but the last is lexed
to its end. -/
theorem betweenEvents_iff {R : Reader} {pieces : List (List UInt8)}
    (h : ∀ piece ∈ pieces.dropLast, EndsInTag piece) :
    BetweenEvents R pieces ↔ ∀ piece ∈ pieces.dropLast, (R.scan (Utf8.lossy piece)).2 = none := by
  cases pieces with
  | nil => simp [BetweenEvents]
  | cons first rest =>
    cases rest with
    | nil =>
      refine ⟨fun _ => by simp, fun _ before after heq hbefore hafter => ?_⟩
      rcases List.append_eq_singleton_iff.mp heq.symm with ⟨rfl, -⟩ | ⟨-, rfl⟩
      · exact absurd rfl hbefore
      · exact absurd rfl hafter
    | cons second rest =>
      rw [List.dropLast_cons_cons] at h ⊢
      have hfirst := h first List.mem_cons_self
      -- the pieces as characters: the first begins where the reader starts
      have hmark : ∀ p ∈ (R.start (Utf8.lossy first) :: (second :: rest).map Utf8.lossy).dropLast,
          ∃ x mark, Lexer.IsMark opens closes mark ∧ p = x ++ mark := by
        rw [List.map_cons, List.dropLast_cons_cons, ← List.map_cons, ← List.map_dropLast,
          List.forall_mem_cons]
        refine ⟨exists_mark_start hfirst, fun p hp => ?_⟩
        obtain ⟨piece, hpiece, rfl⟩ := List.mem_map.mp hp
        obtain ⟨x, mark, hmark, -, hx⟩ := (h piece (List.mem_cons_of_mem _ hpiece)).exists_mark
        exact ⟨x, mark, hmark, hx⟩
      have hflat : (R.start (Utf8.lossy first) :: (second :: rest).map Utf8.lossy).flatten =
          R.start (Utf8.lossy (first :: second :: rest).flatten) := by
        rw [lossy_flatten (by rwa [List.dropLast_cons_cons]), List.map_cons (l := second :: rest),
          List.flatten_cons, List.flatten_cons, R.start_append _ _ (lossy_ne_nil hfirst)]
      have hafter : ∀ before after, second :: rest = before ++ after →
          Utf8.lossy after.flatten = (after.map Utf8.lossy).flatten := by
        intro before after heq
        refine lossy_flatten fun piece hpiece => h piece (List.mem_cons_of_mem _ ?_)
        rw [heq, List.dropLast_append_of_ne_nil
          (List.ne_nil_of_mem (List.dropLast_subset _ hpiece))]
        exact List.mem_append_right _ hpiece
      have hscan : (∀ p ∈ (R.start (Utf8.lossy first) ::
          (second :: rest).map Utf8.lossy).dropLast, (R.scan p).2 = none) ↔
          ∀ piece ∈ first :: (second :: rest).dropLast, (R.scan (Utf8.lossy piece)).2 = none := by
        rw [List.map_cons, List.dropLast_cons_cons, ← List.map_cons, ← List.map_dropLast,
          List.forall_mem_cons, List.forall_mem_cons, Machine.scan_start, List.forall_mem_map]
      rw [← hscan, ← Lexer.passes_pieces_iff hmark, hflat]
      unfold BetweenEvents
      constructor
      · intro hpass before after heq hbefore hne
        obtain ⟨p, before, rfl⟩ := List.exists_cons_of_ne_nil hbefore
        obtain ⟨rfl, htail⟩ := List.cons.inj heq
        obtain ⟨b, a, hba, rfl, rfl⟩ := List.map_eq_append_iff.mp htail
        rw [← hafter b a hba]
        exact hpass (first :: b) a (by rw [hba]; rfl) (by simp) (by simpa using hne)
      · intro hpass before after heq hbefore hne
        obtain ⟨p, before, rfl⟩ := List.exists_cons_of_ne_nil hbefore
        obtain ⟨rfl, htail : second :: rest = before ++ after⟩ := List.cons.inj heq
        rw [hafter before after htail]
        exact hpass (R.start (Utf8.lossy first) :: before.map Utf8.lossy) (after.map Utf8.lossy)
          (by rw [htail, List.map_append]; rfl) (by simp) (by simpa using hne)


/-! ### A reader

The least that meets the laws: comments, references, and tags whose attributes hold neither a
reference nor a `>`. On such a text it reads what the XML reader reads. -/

namespace PlainReader

/-- What stands before the first `stop`, and what comes after it. -/
def upTo (stop : List Char) : List Char → Option (List Char × List Char)
  | [] => none
  | c :: s =>
    if stop.isPrefixOf (c :: s) then some ([], (c :: s).drop stop.length)
    else (upTo stop s).map fun r => (c :: r.1, r.2)

/-- At most `n` attributes. -/
def attributes : ℕ → List Char → List (Except String (String × String))
  | 0, _ => []
  | n + 1, s =>
    match s.dropWhile jsWs with
    | [] => []
    | c :: s =>
      let key := (c :: s).takeWhile (· ≠ '=')
      match (c :: s).drop (key.length + 1) with
      | '"' :: s =>
        let value := s.takeWhile (· ≠ '"')
        .ok (String.ofList key, String.ofList value) :: attributes n (s.drop (value.length + 1))
      | _ => [.error "position 0: attribute value must be enclosed in quotes"]

/-- A tag, from what stands between its brackets. -/
def tag (s : List Char) : Tag :=
  let name := s.takeWhile fun c => !jsWs c
  ⟨String.ofList name, attributes s.length (s.drop name.length)⟩

def event (s : List Char) : Event :=
  if s.head? = some '/' then .stop (String.ofList s.tail)
  else if s.getLast? = some '/' then .empty (tag s.dropLast)
  else .start (tag s)

def next : List Char → Except String (Option (Event × List Char))
  | [] => .ok none
  | c :: s =>
    if c = '<' then
      if ['!', '-', '-'].isPrefixOf s then
        match upTo ['-', '-', '>'] (s.drop 3) with
        | some (_, rest) => .ok (some (.other, rest))
        | none => .error "syntax error: comment not closed"
      else
        match upTo ['>'] s with
        | some (inner, rest) => .ok (some (event inner, rest))
        | none => .error "syntax error: tag not closed"
    else if c = '&' then
      match upTo [';'] s with
      | some (name, rest) => .ok (some (.ref (String.ofList name) (.ok none) none, rest))
      | none => .error "ill-formed document: reference not closed"
    else
      .ok (some (.text ((c :: s).takeWhile fun x => !opens x),
        (c :: s).dropWhile fun x => !opens x))

/-- Whether a literal stands at the head of a text that goes on after the literal's first
occurrence does not depend on how it goes on. -/
theorem isPrefixOf_append {stop s : List Char} (h : stop.length ≤ s.length)
    (rest rest' : List Char) :
    stop.isPrefixOf (s ++ rest) = stop.isPrefixOf (s ++ rest') := by
  have hiff : ∀ r, stop.isPrefixOf (s ++ r) = true ↔ stop <+: s := fun r =>
    List.isPrefixOf_iff_prefix.trans
      ⟨fun hp => List.prefix_of_prefix_length_le hp (List.prefix_append s r) h,
        fun hp => hp.trans (List.prefix_append s r)⟩
  rw [Bool.eq_iff_iff, hiff, hiff]

theorem upTo_eq_some {stop s before rest : List Char} (h : upTo stop s = some (before, rest)) :
    s = before ++ stop ++ rest ∧
      ∀ rest', stop ≠ [] → upTo stop (before ++ stop ++ rest') = some (before, rest') := by
  induction s generalizing before with
  | nil => cases h
  | cons c s ih =>
    unfold upTo at h
    split at h
    · next hprefix =>
      obtain ⟨post, hpost⟩ := List.isPrefixOf_iff_prefix.mp hprefix
      obtain ⟨rfl, rfl⟩ := Prod.mk.inj (Option.some.inj h)
      refine ⟨by rw [← hpost]; simp, fun rest' hne => ?_⟩
      obtain ⟨d, stop, rfl⟩ := List.exists_cons_of_ne_nil hne
      simp [upTo]
    · next hprefix =>
      obtain ⟨⟨before', rest'⟩, hup, heq⟩ := Option.map_eq_some_iff.mp h
      obtain ⟨rfl, rfl⟩ := Prod.mk.inj heq
      obtain ⟨rfl, hall⟩ := ih hup
      refine ⟨rfl, fun r hne => ?_⟩
      have hsame : stop.isPrefixOf (c :: before' ++ stop ++ rest') =
          stop.isPrefixOf (c :: before' ++ stop ++ r) :=
        isPrefixOf_append (by simp only [List.length_append]; omega) rest' r
      simp only [List.cons_append] at hsame hprefix ⊢
      rw [hsame] at hprefix
      rw [upTo, if_neg hprefix, hall r hne]
      rfl

theorem not_comment {inner rest : List Char}
    (h : ['!', '-', '-'].isPrefixOf (inner ++ ['>'] ++ rest) = false) (rest' : List Char) :
    ['!', '-', '-'].isPrefixOf (inner ++ ['>'] ++ rest') = false := by
  by_cases hlen : ['!', '-', '-'].length ≤ (inner ++ ['>']).length
  · rwa [isPrefixOf_append hlen rest' rest]
  · -- a tag shorter than the opening of a comment has its bracket where that has none
    match inner, hlen with
    | [], _ => rfl
    | [a], _ => cases ha : ('!' == a) <;> simp [List.isPrefixOf, ha]
    | a :: b :: inner, hlen => exact absurd (by simp) hlen

theorem next_delimited {c : Char} {s rest : List Char} {t : Event} (hc : opens c = true)
    (h : next (c :: s) = .ok (some (t, rest))) :
    ∃ used, c :: s = used ++ rest ∧ used.getLast?.any closes = true ∧
      ∀ rest', next (used ++ rest') = .ok (some (t, rest')) := by
  simp only [next] at h
  split at h
  · next hlt =>
    subst hlt
    split at h
    · next hcomment =>
      split at h
      · next before rest₁ hup =>
        obtain ⟨rfl, rfl⟩ := Prod.mk.inj (Option.some.inj (Except.ok.inj h))
        obtain ⟨post, rfl⟩ := List.isPrefixOf_iff_prefix.mp hcomment
        obtain ⟨hs, hall⟩ := upTo_eq_some hup
        have hpost : post = before ++ ['-', '-', '>'] ++ rest₁ := by simpa using hs
        refine ⟨'<' :: (['!', '-', '-'] ++ (before ++ ['-', '-', '>'])), by simp [hpost], ?_,
          fun rest' => ?_⟩
        · simp [List.getLast?_cons, closes]
        · have hup' := hall rest' (by simp)
          simp only [List.append_assoc, List.cons_append, List.nil_append] at hup' ⊢
          simp [next, List.isPrefixOf, hup']
      · cases h
    · next hcomment =>
      split at h
      · next inner rest₁ hup =>
        obtain ⟨rfl, rfl⟩ := Prod.mk.inj (Option.some.inj (Except.ok.inj h))
        obtain ⟨hs, hall⟩ := upTo_eq_some hup
        rw [hs] at hcomment
        refine ⟨'<' :: (inner ++ ['>']), by simp [hs], by simp [List.getLast?_cons, closes],
          fun rest' => ?_⟩
        have hcomment' := not_comment (Bool.eq_false_iff.mpr hcomment) rest'
        have hup' := hall rest' (by simp)
        simp only [List.append_assoc, List.cons_append, List.nil_append] at hup' hcomment' ⊢
        simp only [next, if_true]
        rw [hcomment', hup']
        simp
      · cases h
  · next hlt =>
    split at h
    · next hamp =>
      subst hamp
      split at h
      · next name rest₁ hup =>
        obtain ⟨rfl, rfl⟩ := Prod.mk.inj (Option.some.inj (Except.ok.inj h))
        obtain ⟨hs, hall⟩ := upTo_eq_some hup
        refine ⟨'&' :: (name ++ [';']), by simp [hs], by simp [List.getLast?_cons, closes],
          fun rest' => ?_⟩
        have hup' := hall rest' (by simp)
        simp only [List.append_assoc, List.cons_append, List.nil_append] at hup' ⊢
        simp [next, hup']
      · cases h
    · next hamp => simp [opens, hlt, hamp] at hc

theorem next_text (used rest : List Char) (hne : used ≠ []) (hfree : ∀ c ∈ used, opens c = false)
    (hhead : rest.head?.all opens = true) :
    next (used ++ rest) = .ok (some (.text used, rest)) := by
  have htake : (used ++ rest).takeWhile (fun x => !opens x) = used := by
    rw [List.takeWhile_append_of_pos (by simpa using hfree)]
    cases rest with
    | nil => simp
    | cons d rest => simp_all
  have hdrop : (used ++ rest).dropWhile (fun x => !opens x) = rest := by
    rw [List.dropWhile_append_of_pos (by simpa using hfree)]
    cases rest with
    | nil => rfl
    | cons d rest => simp_all
  obtain ⟨c, used, rfl⟩ := List.exists_cons_of_ne_nil hne
  have hc := hfree c List.mem_cons_self
  rw [List.cons_append] at htake hdrop ⊢
  have hlt : c ≠ '<' := by rintro rfl; cases hc
  have hamp : c ≠ '&' := by rintro rfl; cases hc
  rw [next, if_neg hlt, if_neg hamp, htake, hdrop]

theorem isMarkup_event (s : List Char) : (event s).isMarkup = true := by
  unfold event
  split
  · rfl
  · split <;> rfl

theorem next_markup (c : Char) (s : List Char) (t : Event) (hc : opens c = true)
    (h : next (c :: s) = .ok (some (t, []))) (hlast : (c :: s).getLast? = some '>') :
    t.isMarkup = true := by
  simp only [next] at h
  split at h
  · split at h
    · split at h
      · obtain ⟨rfl, -⟩ := Prod.mk.inj (Option.some.inj (Except.ok.inj h))
        rfl
      · cases h
    · split at h
      · obtain ⟨rfl, -⟩ := Prod.mk.inj (Option.some.inj (Except.ok.inj h))
        exact isMarkup_event _
      · cases h
  · next hlt =>
    split at h
    · split at h
      · next hup =>
        -- a reference ends with its semicolon
        obtain ⟨rfl, rfl⟩ := Prod.mk.inj (Option.some.inj (Except.ok.inj h))
        rw [(upTo_eq_some hup).1] at hlast
        simp [List.getLast?_cons] at hlast
      · cases h
    · next hamp => simp [opens, hlt, hamp] at hc

theorem next_opens (c : Char) (s : List Char) (_ : opens c = true) : next (c :: s) ≠ .ok none := by
  unfold next
  simp only
  repeat' split
  all_goals simp

end PlainReader

def plainReader : Reader where
  next := PlainReader.next
  next_nil := rfl
  next_text := PlainReader.next_text
  next_opens := PlainReader.next_opens
  next_delimited := fun _ _ _ _ => PlainReader.next_delimited
  start := fun s => s
  start_append := fun _ _ _ => rfl
  start_eq := fun _ => Or.inl rfl
  next_markup := PlainReader.next_markup

/-- Attribute values that are neither capitals nor times. -/
def plainValues : Values := ⟨fun s => s, fun _ => none⟩

end EmeraldExchange.Iptv
