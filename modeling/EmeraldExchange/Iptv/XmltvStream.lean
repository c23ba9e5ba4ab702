import EmeraldExchange.Iptv.XmltvSplit
import EmeraldExchange.Iptv.XmltvSniff

/-!
# The streaming parser

A feed comes in chunks, and may be compressed. What is decompressed is given to the sniffer, and is
added to the text that is not yet parsed; when that is large enough it is parsed up to the last
`</channel>` or `</programme>`, and at the end all of it is.

Whether all this comes to the same however the feed is cut into chunks is asked in two parts.

* **Programmes.** Wherever the text is cut, either each cut lies between two events of the
  reader, and then the fragments are together parsed as the whole text is, or the parse fails
  (`Machine.parseFragments_eq`). So two ways of cutting give
  the same programmes, unless one of them cuts the text inside a comment or a section and the
  other does not.
* **Channels.** They are those of the whole text if the ends of the chunks are harmless
  (`ChannelsKept`), and there may be others where they are not: where a
  channel with no end tag of its own is followed by another
  (`Parser.not_agrees_selfClosed`).
-/

namespace EmeraldExchange.Iptv

/-! ### Decompression -/

structure Decoder where
  State : Type
  init : State
  write : State → List UInt8 → Except String (State × List UInt8)
  finish : State → Except String (List UInt8)

/-- Write chunks and finish: what comes out after each of them, and at the end. -/
def Decoder.decode (D : Decoder) :
    D.State → List (List UInt8) → Except String (List (List UInt8) × List UInt8)
  | d, [] =>
    match D.finish d with
    | .error e => .error s!"xmltv_gunzip:{e}"
    | .ok rest => .ok ([], rest)
  | d, chunk :: chunks =>
    match D.write d chunk with
    | .error e => .error s!"xmltv_gunzip:{e}"
    | .ok (d, bytes) =>
      match D.decode d chunks with
      | .error e => .error e
      | .ok (feeds, rest) => .ok (bytes :: feeds, rest)

def fedText (r : List (List UInt8) × List UInt8) : List UInt8 := r.1.flatten ++ r.2

/-- **The gzip decoder**: what comes out of it in all depends only on what is written in all. -/
structure Gunzip extends Decoder where
  decode_congr : ∀ chunks chunks', chunks.flatten = chunks'.flatten →
    (toDecoder.decode init chunks).toOption.map fedText =
      (toDecoder.decode init chunks').toOption.map fedText

/-- What the first bytes have told about the input. -/
inductive Input (G : Gunzip)
  /-- Fewer than two bytes have come. -/
  | head (bytes : List UInt8)
  | plain
  | gzip (d : G.State)

namespace Input

variable {G : Gunzip}

/-- A chunk comes: what there is to feed, if the first two bytes are there. -/
def write : Input G → List UInt8 → Except String (Input G × Option (List UInt8))
  | head bytes, chunk =>
    let bytes := bytes ++ chunk
    if bytes.length < 2 then .ok (head bytes, none)
    else if bytes.take 2 = [0x1f, 0x8b] then
      match G.write G.init bytes with
      | .error e => .error s!"xmltv_gunzip:{e}"
      | .ok (d, bytes) => .ok (gzip d, some bytes)
    else .ok (plain, some bytes)
  | plain, chunk => .ok (plain, some chunk)
  | gzip d, chunk =>
    match G.write d chunk with
    | .error e => .error s!"xmltv_gunzip:{e}"
    | .ok (d, bytes) => .ok (gzip d, some bytes)

def finish : Input G → Except String (List UInt8)
  | head bytes => .ok bytes
  | plain => .ok []
  | gzip d =>
    match G.finish d with
    | .error e => .error s!"xmltv_gunzip:{e}"
    | .ok rest => .ok rest

/-- **What chunks feed**, one after another and at the end. -/
def feeds : Input G → List (List UInt8) → Except String (List (List UInt8) × List UInt8)
  | i, [] =>
    match i.finish with
    | .error e => .error e
    | .ok rest => .ok ([], rest)
  | i, chunk :: chunks =>
    match i.write chunk with
    | .error e => .error e
    | .ok (i, none) => i.feeds chunks
    | .ok (i, some bytes) =>
      match i.feeds chunks with
      | .error e => .error e
      | .ok (fs, rest) => .ok (bytes :: fs, rest)

end Input

/-! ### The parser -/

def parallelBatch : ℕ := 8 * 1024 * 1024

def unparsedMax : ℕ := 64 * 1024 * 1024

def Batch.append (b b' : Batch) : Batch :=
  ⟨b.programmes ++ b'.programmes, b.channels ++ b'.channels⟩

structure Feeder where
  /-- The sniffer's buffer, if channels are sniffed. -/
  sniff : Option (List UInt8)
  unparsed : List UInt8
  firstFragment : Bool
  machine : Machine

/-- **The parser.** -/
structure Parser (G : Gunzip) extends Feeder where
  input : Input G

/-- Where a text is cut to be parsed: behind the last `</channel>` after the last `</programme>`,
or behind that. -/
def cutAt (unparsed : List UInt8) : Option ℕ :=
  let programme := (rfind programmeEnd unparsed).map (· + 12)
  let tail := programme.getD 0
  let channel := (rfind channelEnd (unparsed.drop tail)).map fun i => tail + i + 10
  channel.or programme

def stripBom (text : List UInt8) : List UInt8 :=
  if [0xef, 0xbb, 0xbf].isPrefixOf text then text.drop 3 else text

def sniffFed (sniff : Option (List UInt8)) (bytes : List UInt8) :
    Option (List UInt8) × List ChannelDef :=
  match sniff with
  | none => (none, [])
  | some buf => (some (sniffChannels (buf ++ bytes)).1, (sniffChannels (buf ++ bytes)).2)

section calls

variable {G : Gunzip} (R : Reader) (v : Values) (n : ℕ)

/-- **Feed the parser.** -/
def Feeder.feed (p : Feeder) (bytes : List UInt8) (last : Bool) : Except String (Feeder × Batch) :=
  let (sniff, channels) := sniffFed p.sniff bytes
  let unparsed := p.unparsed ++ bytes
  if !last && unparsed.length < parallelBatch then .ok ({ p with sniff, unparsed }, ⟨[], channels⟩)
  else
    match if last then some unparsed.length else cutAt unparsed with
    | none =>
      if unparsedMax < unparsed.length then .error "xmltv_element_too_large"
      else .ok ({ p with sniff, unparsed }, ⟨[], channels⟩)
    | some cut =>
      let fragment :=
        if p.firstFragment then stripBom (unparsed.take cut) else unparsed.take cut
      match p.machine.parseSplit R v n fragment with
      | .error e => .error e
      | .ok (machine, programmes) =>
        .ok (⟨sniff, unparsed.drop cut, false, machine⟩, ⟨programmes, channels⟩)

namespace Parser

def new (sniffChannels : Bool) : Parser G :=
  ⟨⟨if sniffChannels then some [] else none, [], true, Machine.blank none⟩, .head []⟩

/-- **Push a chunk.** -/
def push (p : Parser G) (chunk : List UInt8) : Except String (Parser G × Batch) :=
  match p.input.write chunk with
  | .error e => .error e
  | .ok (input, none) => .ok ({ p with input }, ⟨[], []⟩)
  | .ok (input, some bytes) =>
    match p.feed R v n bytes false with
    | .error e => .error e
    | .ok (p, batch) => .ok (⟨p, input⟩, batch)

/-- **Finish.** -/
def finish (p : Parser G) : Except String (Parser G × Batch) :=
  match p.input.finish with
  | .error e => .error e
  | .ok rest =>
    match p.feed R v n rest true with
    | .error e => .error e
    | .ok (p, batch) => .ok (⟨p, .plain⟩, batch)

/-- **Push chunks and finish**: all that the calls return. -/
def run : Parser G → List (List UInt8) → Except String Batch
  | p, [] =>
    match p.finish R v n with
    | .error e => .error e
    | .ok (_, batch) => .ok batch
  | p, chunk :: chunks =>
    match p.push R v n chunk with
    | .error e => .error e
    | .ok (p, batch) => (p.run chunks).map batch.append

end Parser

/-! ### What is fed -/

/-- Feed the parser with one thing after another, and with what comes at the end. -/
def Feeder.runFeeds : Feeder → List (List UInt8) → List UInt8 → Except String Batch
  | p, [], rest =>
    match p.feed R v n rest true with
    | .error e => .error e
    | .ok (_, batch) => .ok batch
  | p, bytes :: feeds, rest =>
    match p.feed R v n bytes false with
    | .error e => .error e
    | .ok (p, batch) => (p.runFeeds feeds rest).map batch.append

variable {R v n}

theorem toOption_map {ε α β : Type*} (f : α → β) (r : Except ε α) :
    (r.map f).toOption = r.toOption.map f := by
  cases r <;> rfl

theorem Parser.run_toOption (p : Parser G) (chunks : List (List UInt8)) :
    (p.run R v n chunks).toOption =
      (p.input.feeds chunks).toOption.bind fun r => (p.runFeeds R v n r.1 r.2).toOption := by
  induction chunks generalizing p with
  | nil =>
    rw [Parser.run, Parser.finish, Input.feeds]
    cases p.input.finish with
    | error e => rfl
    | ok rest =>
      simp only [Except.toOption, Option.bind_some, Feeder.runFeeds]
      cases p.feed R v n rest true <;> rfl
  | cons chunk chunks ih =>
    rw [Parser.run, Parser.push, Input.feeds]
    rcases p.input.write chunk with e | ⟨input, _ | bytes⟩
    · rfl
    · -- nothing is fed yet
      simp only [toOption_map]
      rw [ih { p with input }]
      cases input.feeds chunks with
      | error e => rfl
      | ok r => cases hfed : p.runFeeds R v n r.1 r.2 <;> simp [Except.toOption, hfed, Batch.append]
    · cases hfeed : p.feed R v n bytes false with
      | error e =>
        simp only [hfeed]
        cases input.feeds chunks with
        | error e => rfl
        | ok r => simp [Except.toOption, Feeder.runFeeds, hfeed]
      | ok r =>
        simp only [hfeed, toOption_map]
        rw [ih ⟨r.1, input⟩]
        cases input.feeds chunks with
        | error e => rfl
        | ok r =>
          simp only [Except.toOption, Option.bind_some, Feeder.runFeeds, hfeed]
          exact (toOption_map _ _).symm

end calls

/-! ### Fragments -/

namespace Machine

section fragments

variable (m : Machine) (R : Reader) (v : Values) (n : ℕ)

/-- Parse the fragments of a text, one after another. -/
def parseFragments : Machine → List (List UInt8) → Except String (Machine × List Programme)
  | m, [] => .ok (m, [])
  | m, fragment :: fragments =>
    match m.parseSplit R v n fragment with
    | .error e => .error e
    | .ok (m, out) => (parseFragments m fragments).map fun r => (r.1, out ++ r.2)

/-- **The cuts do no harm**: those between fragments lie between events, and so do those of each
fragment that is split, unless it leaves something open. -/
structure CutsWell (fragments : List (List UInt8)) : Prop where
  between : BetweenEvents R fragments
  splits : ∀ before fragment after, fragments = before ++ fragment :: after →
    ∀ r, (m.parseBytes R v before.flatten).toOption = some r →
      CutsBetweenEvents R n fragment ∨ r.1.LeavesOpen R v n fragment

variable {m R v n}

theorem parseFragments_toOption (fragment : List UInt8) (fragments : List (List UInt8)) :
    (parseFragments R v n m (fragment :: fragments)).toOption =
      (m.parseSplit R v n fragment).toOption.bind fun r =>
        (parseFragments R v n r.1 fragments).toOption.map fun r' => (r'.1, r.2 ++ r'.2) := by
  rw [parseFragments]
  cases m.parseSplit R v n fragment with
  | error e => rfl
  | ok r => exact toOption_map _ _

theorem parseBytes_append_toOption {piece : List UInt8} (h : EndsInTag piece)
    (hscan : (R.scan (Utf8.lossy piece)).2 = none) (rest : List UInt8) :
    (m.parseBytes R v (piece ++ rest)).toOption =
      (m.parseBytes R v piece).toOption.bind fun r =>
        (r.1.parseBytes R v rest).toOption.map fun r' => (r'.1, r.2 ++ r'.2) := by
  rw [parseBytes_append h hscan]
  cases m.parseBytes R v piece with
  | error e => rfl
  | ok r =>
    simp only [Except.toOption, Option.bind_some]
    cases r.1.parseBytes R v rest <;> rfl

theorem betweenEvents_singleton (fragment : List UInt8) : BetweenEvents R [fragment] :=
  (betweenEvents_iff (by simp)).mpr (by simp)

theorem betweenEvents_cons {fragment : List UInt8} {fragments : List (List UInt8)}
    (hne : fragments ≠ []) (htag : ∀ piece ∈ (fragment :: fragments).dropLast, EndsInTag piece) :
    BetweenEvents R (fragment :: fragments) ↔
      (R.scan (Utf8.lossy fragment)).2 = none ∧ BetweenEvents R fragments := by
  rw [betweenEvents_iff htag]
  rw [List.dropLast_cons_of_ne_nil hne, List.forall_mem_cons] at htag ⊢
  rw [betweenEvents_iff htag.2]

theorem scan_of_parseBytes {piece : List UInt8} {r : Machine × List Programme}
    (h : (m.parseBytes R v piece).toOption = some r) : (R.scan (Utf8.lossy piece)).2 = none := by
  by_contra hscan
  rw [parseBytes_eq_none hscan] at h
  cases h

theorem CutsWell.head {fragment : List UInt8} {fragments : List (List UInt8)}
    (h : m.CutsWell R v n (fragment :: fragments)) :
    CutsBetweenEvents R n fragment ∨ m.LeavesOpen R v n fragment :=
  h.splits [] fragment fragments rfl (m, []) (by rw [List.flatten_nil, parseBytes_nil]; rfl)

theorem CutsWell.tail {fragment : List UInt8} {fragments : List (List UInt8)}
    (h : m.CutsWell R v n (fragment :: fragments)) (hne : fragments ≠ [])
    (htag : ∀ piece ∈ (fragment :: fragments).dropLast, EndsInTag piece)
    {r : Machine × List Programme} (hr : (m.parseBytes R v fragment).toOption = some r) :
    r.1.CutsWell R v n fragments := by
  refine ⟨((betweenEvents_cons hne htag).mp h.between).2, fun before f after heq r' hr' => ?_⟩
  rw [List.dropLast_cons_of_ne_nil hne, List.forall_mem_cons] at htag
  refine h.splits (fragment :: before) f after (by rw [heq]; rfl) (r'.1, r.2 ++ r'.2) ?_
  rw [List.flatten_cons, parseBytes_append_toOption htag.1 (scan_of_parseBytes hr), hr,
    Option.bind_some, hr']
  rfl

/-- **Where the cuts do no harm** the fragments are together parsed as the whole. -/
theorem CutsWell.parseFragments_eq {fragments : List (List UInt8)}
    (h : m.CutsWell R v n fragments) (htag : ∀ piece ∈ fragments.dropLast, EndsInTag piece) :
    (parseFragments R v n m fragments).toOption =
      (m.parseBytes R v fragments.flatten).toOption := by
  induction fragments generalizing m with
  | nil =>
    rw [List.flatten_nil, parseBytes_nil]
    rfl
  | cons fragment fragments ih =>
    rw [parseFragments_toOption, parseSplit_of_cuts h.head]
    by_cases hne : fragments = []
    · subst hne
      rw [List.flatten_singleton]
      cases m.parseBytes R v fragment with
      | error e => rfl
      | ok r => simp [parseFragments, Except.toOption]
    · have hscan := ((betweenEvents_cons hne htag).mp h.between).1
      have htag' := htag
      rw [List.dropLast_cons_of_ne_nil hne, List.forall_mem_cons] at htag'
      rw [List.flatten_cons, parseBytes_append_toOption htag'.1 hscan]
      cases hparse : (m.parseBytes R v fragment).toOption with
      | none => rfl
      | some r => rw [Option.bind_some, Option.bind_some, ih (h.tail hne htag hparse) htag'.2]

/-- **If the fragments are parsed**, the cuts did no harm. -/
theorem cutsWell_of_parseFragments {fragments : List (List UInt8)}
    (htag : ∀ piece ∈ fragments.dropLast, EndsInTag piece) {r : Machine × List Programme}
    (h : (parseFragments R v n m fragments).toOption = some r) : m.CutsWell R v n fragments := by
  induction fragments generalizing m r with
  | nil =>
    refine ⟨fun before after heq hbefore _ => ?_, fun before f after heq => ?_⟩
    · exact absurd (List.append_eq_nil_iff.mp heq.symm).1 hbefore
    · exact absurd heq.symm (by simp)
  | cons fragment fragments ih =>
    rw [parseFragments_toOption] at h
    obtain ⟨r₁, hsplit, hrest⟩ := Option.bind_eq_some_iff.mp h
    have hhead : CutsBetweenEvents R n fragment ∨ m.LeavesOpen R v n fragment := by
      by_contra hnot
      obtain ⟨hcuts, hopen⟩ := not_or.mp hnot
      rw [parseSplit_eq_none hcuts hopen] at hsplit
      cases hsplit
    rw [parseSplit_of_cuts hhead] at hsplit
    have hscan := scan_of_parseBytes hsplit
    obtain ⟨r₂, hfragments, -⟩ := Option.map_eq_some_iff.mp hrest
    have htail : fragments ≠ [] → r₁.1.CutsWell R v n fragments ∧ EndsInTag fragment := by
      intro hne
      rw [List.dropLast_cons_of_ne_nil hne, List.forall_mem_cons] at htag
      exact ⟨ih htag.2 hfragments, htag.1⟩
    refine ⟨?_, fun before f after heq r' hr' => ?_⟩
    · by_cases hne : fragments = []
      · rw [hne]
        exact betweenEvents_singleton fragment
      · exact (betweenEvents_cons hne htag).mpr ⟨hscan, (htail hne).1.between⟩
    · cases before with
      | nil =>
        obtain ⟨rfl, rfl⟩ := List.cons.inj heq
        rw [List.flatten_nil, parseBytes_nil] at hr'
        obtain rfl := Option.some.inj hr'
        exact hhead
      | cons g before =>
        obtain ⟨rfl, hrest : fragments = before ++ f :: after⟩ := List.cons.inj heq
        obtain ⟨hcuts, hfragment⟩ := htail (by rw [hrest]; simp)
        rw [List.flatten_cons, parseBytes_append_toOption hfragment hscan, hsplit,
          Option.bind_some] at hr'
        obtain ⟨r₃, hr₃, rfl⟩ := Option.map_eq_some_iff.mp hr'
        exact hcuts.splits before f after hrest r₃ hr₃

end fragments

end Machine

/-- Where a text is cut, if it is parsed yet. -/
def cutOf (unparsed : List UInt8) : Option ℕ :=
  if unparsed.length < parallelBatch then none else cutAt unparsed

/-- The fragments in which what is fed is parsed. -/
def fragmentsFrom : List UInt8 → List (List UInt8) → List UInt8 → List (List UInt8)
  | unparsed, [], rest => [unparsed ++ rest]
  | unparsed, bytes :: feeds, rest =>
    match cutOf (unparsed ++ bytes) with
    | some cut =>
      (unparsed ++ bytes).take cut :: fragmentsFrom ((unparsed ++ bytes).drop cut) feeds rest
    | none => fragmentsFrom (unparsed ++ bytes) feeds rest

/-- The first of some fragments without a byte order mark. -/
def stripFirst : List (List UInt8) → List (List UInt8)
  | [] => []
  | fragment :: fragments => stripBom fragment :: fragments

/-- No stretch of a text is too long without a closing tag. -/
def NoLongStretch (text : List UInt8) : Prop :=
  ∀ s, s <:+: text → unparsedMax < s.length → programmeEnd <:+: s

theorem fragmentsFrom_ne_nil (unparsed : List UInt8) (feeds : List (List UInt8))
    (rest : List UInt8) : fragmentsFrom unparsed feeds rest ≠ [] := by
  induction feeds generalizing unparsed with
  | nil => simp [fragmentsFrom]
  | cons bytes feeds ih =>
    rw [fragmentsFrom]
    split
    · simp
    · exact ih _

theorem flatten_fragmentsFrom (unparsed : List UInt8) (feeds : List (List UInt8))
    (rest : List UInt8) :
    (fragmentsFrom unparsed feeds rest).flatten = unparsed ++ (feeds.flatten ++ rest) := by
  induction feeds generalizing unparsed with
  | nil => simp [fragmentsFrom]
  | cons bytes feeds ih =>
    rw [fragmentsFrom]
    split
    · next cut _ =>
      rw [List.flatten_cons, ih, ← List.append_assoc, List.take_append_drop, List.flatten_cons,
        List.append_assoc, List.append_assoc]
    · rw [ih, List.flatten_cons, List.append_assoc, List.append_assoc]

theorem rfind_eq_none {needle s : List UInt8} (h : rfind needle s = none) : ¬ needle <:+: s := by
  induction s with
  | nil => simpa [rfind] using h
  | cons b s ih =>
    unfold rfind at h
    split at h
    · cases h
    · next hrest =>
      split at h
      · cases h
      · next hprefix =>
        rw [List.infix_cons_iff]
        exact not_or.mpr ⟨fun hp => hprefix (List.isPrefixOf_iff_prefix.mpr hp), ih hrest⟩

theorem endsInTag_of_cutAt {unparsed : List UInt8} {cut : ℕ} (h : cutAt unparsed = some cut) :
    EndsInTag (unparsed.take cut) := by
  unfold cutAt at h
  simp only at h
  rcases Option.or_eq_some_iff.mp h with h | ⟨-, h⟩
  · obtain ⟨i, hi, rfl⟩ := Option.map_eq_some_iff.mp h
    obtain ⟨pre, post, hsplit, rfl⟩ := rfind_eq_some hi
    generalize ((rfind programmeEnd unparsed).map (· + 12)).getD 0 = tail at hsplit
    refine ⟨unparsed.take tail ++ pre, channelEnd, isEndTag_channelEnd, ?_⟩
    rw [Nat.add_assoc, List.take_add, hsplit, List.append_assoc (unparsed.take tail)]
    congr 1
    exact List.take_left' (by simp [channelEnd, ascii])
  · obtain ⟨i, hi, rfl⟩ := Option.map_eq_some_iff.mp h
    obtain ⟨pre, post, hsplit, rfl⟩ := rfind_eq_some hi
    refine ⟨pre, programmeEnd, isEndTag_programmeEnd, ?_⟩
    rw [hsplit]
    exact List.take_left' (by simp [programmeEnd, ascii])

theorem endsInTag_of_mem_fragmentsFrom {unparsed : List UInt8} {feeds : List (List UInt8)}
    {rest fragment : List UInt8} (h : fragment ∈ (fragmentsFrom unparsed feeds rest).dropLast) :
    EndsInTag fragment := by
  induction feeds generalizing unparsed with
  | nil => cases h
  | cons bytes feeds ih =>
    rw [fragmentsFrom] at h
    split at h
    · next cut hcut =>
      rw [List.dropLast_cons_of_ne_nil (fragmentsFrom_ne_nil _ _ _)] at h
      rcases List.mem_cons.mp h with rfl | h
      · unfold cutOf at hcut
        split at hcut
        · cases hcut
        · exact endsInTag_of_cutAt hcut
      · exact ih h
    · exact ih h

theorem stripBom_append {piece : List UInt8} (h : EndsInTag piece) (rest : List UInt8) :
    stripBom (piece ++ rest) = stripBom piece ++ rest ∧ EndsInTag (stripBom piece) := by
  obtain ⟨x, tag, htag, rfl⟩ := h
  obtain ⟨b, tag, rfl⟩ : ∃ b t, tag = b :: t := List.exists_cons_of_ne_nil htag.ne_nil
  have hb := htag.ascii b List.mem_cons_self
  -- no byte of the mark is a byte of the tag
  have hbom : (0xef == b) = false ∧ (0xbb == b) = false ∧ (0xbf == b) = false := by
    refine ⟨?_, ?_, ?_⟩ <;> (rw [beq_eq_false_iff_ne]; rintro rfl; exact absurd hb (by decide))
  obtain ⟨h₁, h₂, h₃⟩ := hbom
  match x with
  | [] => exact ⟨by simp [stripBom, List.isPrefixOf, h₁], [], _, htag, by
      simp [stripBom, List.isPrefixOf, h₁]⟩
  | [a] => exact ⟨by simp [stripBom, List.isPrefixOf, h₂], [a], _, htag, by
      simp [stripBom, List.isPrefixOf, h₂]⟩
  | [a, a'] => exact ⟨by simp [stripBom, List.isPrefixOf, h₃], [a, a'], _, htag, by
      simp [stripBom, List.isPrefixOf, h₃]⟩
  | a :: a' :: a'' :: x =>
    simp only [stripBom, List.cons_append, List.isPrefixOf, List.drop_succ_cons, List.drop_zero]
    split
    · exact ⟨rfl, x, _, htag, rfl⟩
    · exact ⟨rfl, a :: a' :: a'' :: x, _, htag, rfl⟩

theorem endsInTag_of_mem_stripFirst {fragments : List (List UInt8)}
    (h : ∀ fragment ∈ fragments.dropLast, EndsInTag fragment) :
    ∀ fragment ∈ (stripFirst fragments).dropLast, EndsInTag fragment := by
  match fragments with
  | [] => simp [stripFirst]
  | [fragment] => simp [stripFirst]
  | fragment :: fragment' :: fragments =>
    rw [List.dropLast_cons_cons, List.forall_mem_cons] at h
    rw [stripFirst, List.dropLast_cons_cons, List.forall_mem_cons]
    exact ⟨(stripBom_append h.1 []).2, h.2⟩

theorem flatten_stripFirst {fragments : List (List UInt8)} (hne : fragments ≠ [])
    (h : ∀ fragment ∈ fragments.dropLast, EndsInTag fragment) :
    (stripFirst fragments).flatten = stripBom fragments.flatten := by
  match fragments with
  | [] => exact absurd rfl hne
  | [fragment] => simp [stripFirst]
  | fragment :: fragment' :: fragments =>
    rw [List.dropLast_cons_cons, List.forall_mem_cons] at h
    rw [stripFirst, List.flatten_cons, List.flatten_cons (l := fragment), (stripBom_append h.1 _).1]

/-! ### Runs -/

section runs

variable {G : Gunzip} {R : Reader} {v : Values} {n : ℕ}

def sniffed (sniff : Option (List UInt8)) (parts : List (List UInt8)) : List ChannelDef :=
  match sniff with
  | none => []
  | some buf => (channelRe.stream carry buf parts).map channelDef

theorem sniffed_nil (sniff : Option (List UInt8)) : sniffed sniff [] = [] := by
  cases sniff <;> rfl

theorem sniffed_cons (sniff : Option (List UInt8)) (bytes : List UInt8)
    (parts : List (List UInt8)) : sniffed sniff (bytes :: parts) =
      (sniffFed sniff bytes).2 ++ sniffed (sniffFed sniff bytes).1 parts := by
  cases sniff with
  | none => rfl
  | some buf => simp [sniffed, sniffFed, sniffChannels, Matcher.stream]

/-- The fragments in which a parser parses what is fed. -/
def Feeder.fragments (p : Feeder) (feeds : List (List UInt8)) (rest : List UInt8) :
    List (List UInt8) :=
  if p.firstFragment then stripFirst (fragmentsFrom p.unparsed feeds rest)
  else fragmentsFrom p.unparsed feeds rest

theorem length_le_of_cutOf {unparsed text : List UInt8} (h : NoLongStretch text)
    (hin : unparsed <:+: text) (hcut : cutOf unparsed = none) :
    unparsed.length ≤ unparsedMax := by
  unfold cutOf at hcut
  split at hcut
  · next hlt => exact hlt.le.trans (by decide)
  · by_contra hlong
    refine absurd (h unparsed hin (by omega)) (rfind_eq_none ?_)
    have hprogramme := (Option.or_eq_none_iff.mp hcut).2
    simpa using hprogramme

theorem Feeder.feed_of_cutOf_eq_none {p : Feeder} {bytes : List UInt8}
    (hcut : cutOf (p.unparsed ++ bytes) = none)
    (hle : (p.unparsed ++ bytes).length ≤ unparsedMax) :
    p.feed R v n bytes false = .ok ({ p with
      sniff := (sniffFed p.sniff bytes).1
      unparsed := p.unparsed ++ bytes }, ⟨[], (sniffFed p.sniff bytes).2⟩) := by
  unfold Feeder.feed
  unfold cutOf at hcut
  generalize p.unparsed ++ bytes = unparsed at hcut hle ⊢
  split at hcut
  · next hlt => simp [hlt]
  · next hge => simp [hge, hcut, hle.not_gt]

theorem Feeder.feed_of_cutOf {p : Feeder} {bytes : List UInt8} {cut : ℕ}
    (hcut : cutOf (p.unparsed ++ bytes) = some cut) :
    p.feed R v n bytes false =
      match p.machine.parseSplit R v n (if p.firstFragment
        then stripBom ((p.unparsed ++ bytes).take cut) else (p.unparsed ++ bytes).take cut) with
      | .error e => .error e
      | .ok (machine, programmes) =>
        .ok (⟨(sniffFed p.sniff bytes).1, (p.unparsed ++ bytes).drop cut, false, machine⟩,
          ⟨programmes, (sniffFed p.sniff bytes).2⟩) := by
  unfold Feeder.feed
  unfold cutOf at hcut
  generalize p.unparsed ++ bytes = unparsed at hcut ⊢
  split at hcut
  · cases hcut
  · next hge => simp [hge, hcut]

theorem Feeder.feed_last {p : Feeder} {rest : List UInt8} :
    p.feed R v n rest true =
      match p.machine.parseSplit R v n (if p.firstFragment
        then stripBom (p.unparsed ++ rest) else p.unparsed ++ rest) with
      | .error e => .error e
      | .ok (machine, programmes) =>
        .ok (⟨(sniffFed p.sniff rest).1, [], false, machine⟩,
          ⟨programmes, (sniffFed p.sniff rest).2⟩) := by
  unfold Feeder.feed
  generalize p.unparsed ++ rest = unparsed
  simp

theorem Feeder.fragments_cons (p : Feeder) (bytes : List UInt8) (feeds : List (List UInt8))
    (rest : List UInt8) : p.fragments (bytes :: feeds) rest =
      match cutOf (p.unparsed ++ bytes) with
      | some cut => (if p.firstFragment then stripBom ((p.unparsed ++ bytes).take cut)
          else (p.unparsed ++ bytes).take cut) ::
        fragmentsFrom ((p.unparsed ++ bytes).drop cut) feeds rest
      | none => { p with unparsed := p.unparsed ++ bytes }.fragments feeds rest := by
  unfold Feeder.fragments
  rw [fragmentsFrom]
  cases cutOf (p.unparsed ++ bytes) <;> split <;> rfl

/-- **What a parser returns** is what the machine makes of the fragments, and what the sniffer
finds in the parts. -/
theorem Feeder.runFeeds_toOption {p : Feeder} {feeds : List (List UInt8)} {rest text : List UInt8}
    (hstretch : NoLongStretch text) (htext : p.unparsed ++ (feeds.flatten ++ rest) <:+: text) :
    (p.runFeeds R v n feeds rest).toOption =
      (Machine.parseFragments R v n p.machine (p.fragments feeds rest)).toOption.map fun r =>
        ⟨r.2, sniffed p.sniff (feeds ++ [rest])⟩ := by
  induction feeds generalizing p with
  | nil =>
    have hfragments : p.fragments [] rest =
        [if p.firstFragment then stripBom (p.unparsed ++ rest) else p.unparsed ++ rest] := by
      unfold Feeder.fragments
      split <;> rfl
    rw [Feeder.runFeeds, Feeder.feed_last, hfragments, Machine.parseFragments_toOption,
      List.nil_append, sniffed_cons, sniffed_nil, List.append_nil]
    cases p.machine.parseSplit R v n _ with
    | error e => rfl
    | ok r => simp [Machine.parseFragments, Except.toOption]
  | cons bytes feeds ih =>
    rw [Feeder.runFeeds, Feeder.fragments_cons, List.cons_append, sniffed_cons]
    rw [List.flatten_cons, List.append_assoc, ← List.append_assoc] at htext
    cases hcut : cutOf (p.unparsed ++ bytes) with
    | none =>
      have hle := length_le_of_cutOf hstretch ((List.prefix_append _ _).isInfix.trans htext) hcut
      rw [Feeder.feed_of_cutOf_eq_none hcut hle]
      simp only [toOption_map]
      rw [ih htext, Option.map_map]
      rfl
    | some cut =>
      have hrest : (p.unparsed ++ bytes).drop cut ++ (feeds.flatten ++ rest) <:+: text := by
        refine List.IsInfix.trans ?_ htext
        obtain ⟨t, ht⟩ := List.drop_suffix cut (p.unparsed ++ bytes)
        exact ⟨t, [], by rw [List.append_nil, ← List.append_assoc, ht]⟩
      rw [Feeder.feed_of_cutOf hcut, Machine.parseFragments_toOption]
      cases p.machine.parseSplit R v n _ with
      | error e => rfl
      | ok r =>
        simp only [toOption_map]
        rw [ih hrest]
        simp [Except.toOption, Feeder.fragments, Batch.append, Function.comp_def]

end runs

/-! ### What is fed is the text -/

namespace Input

variable {G : Gunzip}

theorem feeds_plain (chunks : List (List UInt8)) :
    (plain : Input G).feeds chunks = .ok (chunks, []) := by
  induction chunks with
  | nil => rfl
  | cons chunk chunks ih =>
    rw [feeds, write]
    simp only [ih]

theorem feeds_gzip (d : G.State) (chunks : List (List UInt8)) :
    (gzip d).feeds chunks = G.decode d chunks := by
  induction chunks generalizing d with
  | nil =>
    rw [feeds, finish, Decoder.decode]
    cases G.finish d <;> rfl
  | cons chunk chunks ih =>
    rw [feeds, write, Decoder.decode]
    cases G.write d chunk with
    | error e => rfl
    | ok r => simp only [ih]

/-- **The text of a stream of bytes**, if they can be read. -/
def textOf (G : Gunzip) (bytes : List UInt8) : Option (List UInt8) :=
  if 2 ≤ bytes.length ∧ bytes.take 2 = [0x1f, 0x8b] then
    (G.decode G.init [bytes]).toOption.map fedText
  else some bytes

theorem feeds_text {bytes : List UInt8} (hlt : bytes.length < 2) (chunks : List (List UInt8)) :
    ((head bytes : Input G).feeds chunks).toOption.map fedText =
      textOf G (bytes ++ chunks.flatten) := by
  induction chunks generalizing bytes with
  | nil => simp [feeds, finish, textOf, fedText, Except.toOption, hlt.not_ge]
  | cons chunk chunks ih =>
    rw [List.flatten_cons, ← List.append_assoc, feeds, write]
    by_cases hlt' : (bytes ++ chunk).length < 2
    · rw [if_pos hlt']
      exact ih hlt'
    · rw [if_neg hlt']
      have htake : (bytes ++ chunk ++ chunks.flatten).take 2 = (bytes ++ chunk).take 2 :=
        List.take_append_of_le_length (by omega)
      have hlen : 2 ≤ (bytes ++ chunk ++ chunks.flatten).length := by
        rw [List.length_append]
        omega
      unfold textOf
      rw [htake]
      by_cases hgzip : (bytes ++ chunk).take 2 = [0x1f, 0x8b]
      · rw [if_pos hgzip, if_pos ⟨hlen, hgzip⟩,
          G.decode_congr _ ((bytes ++ chunk) :: chunks) (by simp), Decoder.decode]
        cases G.write G.init (bytes ++ chunk) with
        | error e => rfl
        | ok r => simp only [feeds_gzip]
      · rw [if_neg hgzip, if_neg fun h => hgzip h.2]
        simp [feeds_plain, Except.toOption, fedText]

end Input

/-! ### Chunks -/

/-- The same programmes, and the same set of channels. -/
def Batch.Same (b b' : Batch) : Prop :=
  b.programmes = b'.programmes ∧ ∀ c, c ∈ b.channels ↔ c ∈ b'.channels

namespace Parser

section chunks

variable (G : Gunzip) (R : Reader) (v : Values) (n : ℕ)

/-- **The chunks are of no account**: in chunks and in one piece the stream cannot be parsed, or
both give the same programmes and the same set of channels. -/
def Agrees (sniffChannels : Bool) (chunks : List (List UInt8)) : Prop :=
  Option.Rel Batch.Same ((new (G := G) sniffChannels).run R v n chunks).toOption
    ((new (G := G) sniffChannels).run R v n [chunks.flatten]).toOption

/-- **The chunks are read well**: the stream has a text that can be parsed in one go, and the cuts
made to parse it in fragments do no harm. -/
def ReadsWell (chunks : List (List UInt8)) : Prop :=
  ∃ feeds rest, (Input.head (G := G) []).feeds chunks = .ok (feeds, rest) ∧
    ((Machine.blank none).parseBytes R v (stripBom (feeds.flatten ++ rest))).toOption ≠ none ∧
    (Machine.blank none).CutsWell R v n (stripFirst (fragmentsFrom [] feeds rest))

/-- **The chunks are sniffed well**: the ends of what they feed are harmless. -/
def SniffsWell (chunks : List (List UInt8)) : Prop :=
  ∀ feeds rest, (Input.head (G := G) []).feeds chunks = .ok (feeds, rest) →
    ChannelsKept (feeds ++ [rest])

variable {G R v n}

theorem run_new {sniffChannels : Bool} {chunks feeds : List (List UInt8)} {rest : List UInt8}
    (hfeeds : (Input.head (G := G) []).feeds chunks = .ok (feeds, rest))
    (hstretch : NoLongStretch (feeds.flatten ++ rest)) :
    ((new (G := G) sniffChannels).run R v n chunks).toOption =
      (Machine.parseFragments R v n (Machine.blank none)
          (stripFirst (fragmentsFrom [] feeds rest))).toOption.map fun r =>
        ⟨r.2, sniffed (if sniffChannels then some [] else none) (feeds ++ [rest])⟩ := by
  rw [run_toOption]
  change ((Input.head (G := G) []).feeds chunks).toOption.bind _ = _
  rw [hfeeds]
  exact Feeder.runFeeds_toOption hstretch (List.infix_refl _)

theorem text_of_feeds {chunks feeds : List (List UInt8)} {rest : List UInt8}
    (hfeeds : (Input.head (G := G) []).feeds chunks = .ok (feeds, rest)) :
    Input.textOf G chunks.flatten = some (feeds.flatten ++ rest) := by
  have htext : ((Input.head (G := G) []).feeds chunks).toOption.map fedText =
      Input.textOf G ([] ++ chunks.flatten) := Input.feeds_text (by decide) chunks
  rw [hfeeds] at htext
  exact htext.symm

theorem fragments_spec (feeds : List (List UInt8)) (rest : List UInt8) :
    (∀ fragment ∈ (stripFirst (fragmentsFrom [] feeds rest)).dropLast, EndsInTag fragment) ∧
      (stripFirst (fragmentsFrom [] feeds rest)).flatten = stripBom (feeds.flatten ++ rest) := by
  have htag : ∀ fragment ∈ (fragmentsFrom [] feeds rest).dropLast, EndsInTag fragment :=
    fun _ => endsInTag_of_mem_fragmentsFrom
  refine ⟨endsInTag_of_mem_stripFirst htag, ?_⟩
  rw [flatten_stripFirst (fragmentsFrom_ne_nil _ _ _) htag, flatten_fragmentsFrom, List.nil_append]

def channelsOf (sniffChannels : Bool) (text : List UInt8) : List ChannelDef :=
  if sniffChannels then (channelRe.spans text).map fun sp => channelDef sp.value else []

/-- **Chunks that are read and sniffed well** give what the text gives in one go. -/
theorem run_of_readsWell {sniffChannels : Bool} {chunks : List (List UInt8)}
    (hstretch : ∀ text, Input.textOf G chunks.flatten = some text → NoLongStretch text)
    (hreads : ReadsWell G R v n chunks) (hsniffs : sniffChannels = true → SniffsWell G chunks) :
    ((new (G := G) sniffChannels).run R v n chunks).toOption =
      (Input.textOf G chunks.flatten).bind fun text =>
        ((Machine.blank none).parseBytes R v (stripBom text)).toOption.map fun r =>
          ⟨r.2, channelsOf sniffChannels text⟩ := by
  obtain ⟨feeds, rest, hfeeds, -, hcuts⟩ := hreads
  have htext := text_of_feeds hfeeds
  obtain ⟨htag, hflatten⟩ := fragments_spec feeds rest
  have hchannels : sniffed (if sniffChannels then some [] else none) (feeds ++ [rest]) =
      channelsOf sniffChannels (feeds.flatten ++ rest) := by
    cases sniffChannels with
    | false => rfl
    | true =>
      have hstream := stream_channelRe (hsniffs rfl feeds rest hfeeds)
      simp only [if_true, sniffed, channelsOf, hstream, List.map_map, List.flatten_append,
        List.flatten_singleton]
      rfl
  rw [run_new hfeeds (hstretch _ htext), hcuts.parseFragments_eq htag, hflatten, htext, hchannels]
  rfl

/-- **Chunks that are not read well** cannot be parsed. -/
theorem readsWell_of_run {sniffChannels : Bool} {chunks : List (List UInt8)} {batch : Batch}
    (hstretch : ∀ text, Input.textOf G chunks.flatten = some text → NoLongStretch text)
    (hrun : ((new (G := G) sniffChannels).run R v n chunks).toOption = some batch) :
    ReadsWell G R v n chunks := by
  cases hfeeds : (Input.head (G := G) []).feeds chunks with
  | error e =>
    rw [run_toOption] at hrun
    change ((Input.head (G := G) []).feeds chunks).toOption.bind _ = _ at hrun
    rw [hfeeds] at hrun
    cases hrun
  | ok r =>
    obtain ⟨feeds, rest⟩ := r
    rw [run_new hfeeds (hstretch _ (text_of_feeds hfeeds))] at hrun
    obtain ⟨r, hparse, -⟩ := Option.map_eq_some_iff.mp hrun
    obtain ⟨htag, hflatten⟩ := fragments_spec feeds rest
    have hcuts := Machine.cutsWell_of_parseFragments htag hparse
    refine ⟨feeds, rest, hfeeds, ?_, hcuts⟩
    rw [← hflatten, ← hcuts.parseFragments_eq htag, hparse]
    exact Option.some_ne_none r

theorem isSome_run_iff {sniffChannels : Bool} {chunks : List (List UInt8)}
    (hstretch : ∀ text, Input.textOf G chunks.flatten = some text → NoLongStretch text) :
    ((new (G := G) sniffChannels).run R v n chunks).toOption.isSome = true ↔
      ReadsWell G R v n chunks := by
  constructor
  · intro h
    obtain ⟨batch, hrun⟩ := Option.isSome_iff_exists.mp h
    exact readsWell_of_run hstretch hrun
  · rintro ⟨feeds, rest, hfeeds, hserial, hcuts⟩
    obtain ⟨htag, hflatten⟩ := fragments_spec feeds rest
    rw [run_new hfeeds (hstretch _ (text_of_feeds hfeeds)), hcuts.parseFragments_eq htag, hflatten,
      Option.isSome_map, Option.isSome_iff_ne_none]
    exact hserial

/-- **When the chunks are of no account.** If the stream is read well neither in chunks nor in one
piece, or both ways and sniffed well if it is sniffed, they are; and if they are, the stream is
read well in chunks exactly if it is in one piece. -/
theorem agrees_of_wells {sniffChannels : Bool} {chunks : List (List UInt8)}
    (hstretch : ∀ text, Input.textOf G chunks.flatten = some text → NoLongStretch text) :
    (¬ ReadsWell G R v n chunks ∧ ¬ ReadsWell G R v n [chunks.flatten] ∨
        (ReadsWell G R v n chunks ∧ ReadsWell G R v n [chunks.flatten]) ∧
          (sniffChannels = true → SniffsWell G chunks ∧ SniffsWell G [chunks.flatten]) →
      Agrees G R v n sniffChannels chunks) ∧
    (Agrees G R v n sniffChannels chunks →
      (ReadsWell G R v n chunks ↔ ReadsWell G R v n [chunks.flatten])) := by
  have hwhole : [chunks.flatten].flatten = chunks.flatten := List.flatten_singleton
  have hstretch' : ∀ text, Input.textOf G [chunks.flatten].flatten = some text →
      NoLongStretch text := by rwa [hwhole]
  have hchunks : ((new (G := G) sniffChannels).run R v n chunks).toOption.isSome = true ↔
      ReadsWell G R v n chunks := isSome_run_iff hstretch
  have hpiece : ((new (G := G) sniffChannels).run R v n [chunks.flatten]).toOption.isSome = true ↔
      ReadsWell G R v n [chunks.flatten] := isSome_run_iff hstretch'
  refine ⟨?_, fun h => ?_⟩
  · rintro (⟨hnot, hnot'⟩ | ⟨⟨hreads, hreads'⟩, hsniffs⟩)
    · -- neither is parsed
      rw [← hchunks, Option.not_isSome_iff_eq_none] at hnot
      rw [← hpiece, Option.not_isSome_iff_eq_none] at hnot'
      rw [Agrees, hnot, hnot']
      exact .none
    · have hrun := run_of_readsWell hstretch hreads fun h => (hsniffs h).1
      have hrun' := run_of_readsWell hstretch' hreads' fun h => (hsniffs h).2
      rw [hwhole, ← hrun] at hrun'
      rw [Agrees, hrun']
      cases (run R v n (new (G := G) sniffChannels) chunks).toOption with
      | none => exact .none
      | some batch => exact .some ⟨rfl, fun _ => Iff.rfl⟩
  · rw [← hchunks, ← hpiece]
    unfold Agrees at h
    generalize (run R v n (new (G := G) sniffChannels) chunks).toOption = o at h ⊢
    generalize (run R v n (new (G := G) sniffChannels) [chunks.flatten]).toOption = o' at h ⊢
    cases h <;> simp

/-! ### Two streams -/

/-- A decoder that takes nothing for compressed. -/
def noGunzip : Gunzip where
  State := Unit
  init := ()
  write := fun _ _ => .error "invalid gzip header"
  finish := fun _ => .error "invalid gzip header"
  decode_congr := by
    intro chunks chunks' _
    cases chunks <;> cases chunks' <;> rfl

theorem noLongStretch_of_length_le {text : List UInt8} (h : text.length ≤ unparsedMax) :
    NoLongStretch text :=
  fun _ hin hlt => absurd (hin.length_le.trans h) hlt.not_ge

theorem cutsWell_singleton (m : Machine) (text : List UInt8) : m.CutsWell R v 1 [text] := by
  refine ⟨Machine.betweenEvents_singleton text, fun before f after heq _ _ => Or.inl ?_⟩
  have hpieces : splitAtProgrammeEnds f 1 = [f] := rfl
  rw [Machine.CutsBetweenEvents, hpieces]
  exact Machine.betweenEvents_singleton f

/-- A feed with one channel, cut in the channel's name. -/
def cutInName : List (List UInt8) :=
  [ascii "<tv><channel id=\"a\"><display-name>A", ascii "B</display-name></channel></tv>"]

theorem agrees_cutInName : Agrees noGunzip plainReader plainValues 1 true cutInName := by
  have hkept : ChannelsKept (cutInName ++ [[]]) := by decide +kernel
  have hkept' : ChannelsKept ([cutInName.flatten] ++ [[]]) := by decide +kernel
  refine (agrees_of_wells fun text htext => ?_).1 (Or.inr ⟨⟨?_, ?_⟩, fun _ => ⟨?_, ?_⟩⟩)
  · obtain rfl : cutInName.flatten = text := Option.some.inj htext
    exact noLongStretch_of_length_le (by decide)
  · exact ⟨cutInName, [], rfl, by decide, cutsWell_singleton _ _⟩
  · exact ⟨[cutInName.flatten], [], rfl, by decide, cutsWell_singleton _ _⟩
  · rintro feeds rest hfeeds
    obtain ⟨rfl, rfl⟩ := Prod.mk.inj (Except.ok.inj hfeeds)
    exact hkept
  · rintro feeds rest hfeeds
    obtain ⟨rfl, rfl⟩ := Prod.mk.inj (Except.ok.inj hfeeds)
    exact hkept'

/-- A feed whose first channel has no end tag of its own, cut behind the beginning of the second. -/
def selfClosed : List (List UInt8) :=
  [ascii "<tv><channel id=\"a\"/><channel", ascii " id=\"b\"></channel></tv>"]

/-- **A channel that closes itself** is found in one piece, and in chunks another is. -/
theorem not_agrees_selfClosed :
    NoLongStretch selfClosed.flatten ∧
      ¬ Agrees noGunzip plainReader plainValues 1 true selfClosed := by
  refine ⟨noLongStretch_of_length_le (by decide), fun h => ?_⟩
  have hchunks : ((new (G := noGunzip) true).run plainReader plainValues 1 selfClosed).toOption =
      some ⟨[], [⟨"b", []⟩]⟩ := rfl
  have hpiece : ((new (G := noGunzip) true).run plainReader plainValues 1
      [selfClosed.flatten]).toOption = some ⟨[], [⟨"a", []⟩]⟩ := rfl
  rw [Agrees, hchunks, hpiece] at h
  cases h with
  | some hsame =>
    have hmem := (hsame.2 ⟨"b", []⟩).mp (by decide)
    exact absurd hmem (by decide)

end chunks

end Parser

end EmeraldExchange.Iptv
