import EmeraldExchange.Lib.Decimal
import Mathlib.Data.List.TakeWhile

/-!
# Attribute lists

The attribute lists of playlist tags: names of capital letters, digits and hyphens, each with a
value, and commas between them. A value in quotes is any text without quotes and line breaks, and
there is nothing that would stand for one; a bare value is a word without quotes, commas and white
space.

So a list of attributes is found again in its text if each of its values can be written
(`read_text`), and nothing else is ever read
(`quotable_of_read`).
-/

namespace EmeraldExchange.AttributeList

inductive Value
  | quoted (s : List Char)
  | bare (s : List Char)
  deriving DecidableEq

abbrev Attrs := List (List Char × Value)

def quotable (c : Char) : Bool := c ≠ '"' && c ≠ '\n' && c ≠ '\r'

def isBare (c : Char) : Bool := c ≠ '"' && c ≠ ',' && !c.isWhitespace

theorem quotable_of_isBare {c : Char} (h : isBare c = true) : quotable c = true := by
  have hne : ∀ d, isBare d = false → c ≠ d := by
    rintro d hd rfl
    rw [hd] at h
    cases h
  simp [quotable, hne '"' (by decide), hne '\n' (by decide), hne '\r' (by decide)]

def isName (c : Char) : Bool := c.isUpper || c.isDigit || c = '-'

/-! ### Reading -/

/-- The value at the front, and what follows it. -/
def readValue : List Char → Option (Value × List Char)
  | [] => none
  | c :: s =>
    if c = '"' then
      if (s.dropWhile quotable).head? = some '"' then
        some (.quoted (s.takeWhile quotable), (s.dropWhile quotable).tail)
      else none
    else if isBare c then
      some (.bare (c :: s.takeWhile isBare), s.dropWhile isBare)
    else none

/-- The attribute at the front, and what follows it. -/
def readAttr (s : List Char) : Option ((List Char × Value) × List Char) :=
  if s.takeWhile isName ≠ [] ∧ (s.dropWhile isName).head? = some '=' then
    (readValue (s.dropWhile isName).tail).map fun r => ((s.takeWhile isName, r.1), r.2)
  else none

/-- Read at most `n` attributes. -/
def readAux : ℕ → List Char → Option Attrs
  | 0, _ => none
  | n + 1, s =>
    (readAttr s).bind fun r =>
      match r.2 with
      | [] => some [r.1]
      | c :: rest => if c = ',' then (readAux n rest).map (r.1 :: ·) else none

/-- **Read an attribute list.** -/
def read (s : List Char) : Option Attrs := readAux s.length s

/-! ### Writing -/

def Value.text : Value → List Char
  | .quoted s => '"' :: (s ++ ['"'])
  | .bare s => s

def attrText (a : List Char × Value) : List Char := a.1 ++ '=' :: a.2.text

/-- **The text of an attribute list.** -/
def text : Attrs → List Char
  | [] => []
  | [a] => attrText a
  | a :: b :: l => attrText a ++ ',' :: text (b :: l)

theorem text_append : ∀ (l : Attrs) {m : Attrs}, m ≠ [] →
    text (l ++ m) = (l.flatMap fun a => attrText a ++ [',']) ++ text m
  | [], _, _ => rfl
  | [a], [], h => absurd rfl h
  | [a], b :: m, _ => by simp [text]
  | a :: b :: l, m, hm => by
    have h := text_append (b :: l) hm
    rw [List.cons_append] at h
    simp [text, h]

theorem text_cons : ∀ (a : List Char × Value) (l : Attrs),
    text (a :: l) = attrText a ++ l.flatMap fun b => ',' :: attrText b
  | a, [] => by simp [text]
  | a, b :: l => by rw [text, text_cons b l, List.flatMap_cons, List.cons_append]

def Value.Ok : Value → Prop
  | .quoted s => ∀ c ∈ s, quotable c = true
  | .bare s => s ≠ [] ∧ ∀ c ∈ s, isBare c = true

structure AttrOk (a : List Char × Value) : Prop where
  name_ne_nil : a.1 ≠ []
  isName_name : ∀ c ∈ a.1, isName c = true
  value : a.2.Ok

/-! ### What is written is read -/

section laws

variable {a : List Char × Value} {l : Attrs} {s rest : List Char}

/-- What may follow a value: nothing, or a comma. -/
def Ends (rest : List Char) : Prop := ∀ c ∈ rest.head?, c = ','

theorem span_append {p : Char → Bool} (hs : ∀ c ∈ s, p c = true)
    (hrest : ∀ c ∈ rest.head?, p c = false) :
    (s ++ rest).takeWhile p = s ∧ (s ++ rest).dropWhile p = rest := by
  rw [List.takeWhile_append_of_pos hs, List.dropWhile_append_of_pos hs]
  cases rest with
  | nil => simp
  | cons c rest =>
    have hc := hrest c rfl
    rw [List.takeWhile_cons_of_neg (by simp [hc]), List.dropWhile_cons_of_neg (by simp [hc]),
      List.append_nil]
    exact ⟨rfl, rfl⟩

theorem readValue_text {v : Value} (hv : v.Ok) (hrest : Ends rest) :
    readValue (v.text ++ rest) = some (v, rest) := by
  cases v with
  | quoted s =>
    have hend : ∀ c ∈ ('"' :: rest).head?, quotable c = false := by
      rintro c ⟨rfl⟩
      decide
    obtain ⟨htake, hdrop⟩ := span_append hv hend
    have htext : (Value.quoted s).text ++ rest = '"' :: (s ++ '"' :: rest) := by simp [Value.text]
    rw [htext, readValue, if_pos rfl, htake, hdrop]
    rfl
  | bare s =>
    obtain ⟨hne, hs⟩ := hv
    obtain ⟨c, s, rfl⟩ := List.exists_cons_of_ne_nil hne
    have hc := hs c List.mem_cons_self
    have hquote : c ≠ '"' := by
      rintro rfl
      exact absurd hc (by decide)
    have hend : ∀ d ∈ rest.head?, isBare d = false := by
      intro d hd
      rw [hrest d hd]
      decide
    obtain ⟨htake, hdrop⟩ := span_append (fun d hd => hs d (List.mem_cons_of_mem _ hd)) hend
    show readValue (c :: (s ++ rest)) = _
    rw [readValue, if_neg hquote, if_pos hc, htake, hdrop]

theorem readAttr_text (ha : AttrOk a) (hrest : Ends rest) :
    readAttr (attrText a ++ rest) = some (a, rest) := by
  have htext : attrText a ++ rest = a.1 ++ '=' :: (a.2.text ++ rest) := by simp [attrText]
  have hend : ∀ c ∈ ('=' :: (a.2.text ++ rest)).head?, isName c = false := by
    rintro c ⟨rfl⟩
    decide
  obtain ⟨htake, hdrop⟩ := span_append ha.isName_name hend
  rw [htext, readAttr, htake, hdrop, if_pos ⟨ha.name_ne_nil, rfl⟩, List.tail_cons,
    readValue_text ha.value hrest]
  rfl

theorem attrText_ne_nil (ha : AttrOk a) : attrText a ≠ [] :=
  List.append_ne_nil_of_left_ne_nil ha.name_ne_nil _

theorem readAux_text : ∀ {l : Attrs} {n : ℕ}, l ≠ [] → (∀ a ∈ l, AttrOk a) → l.length ≤ n →
    readAux n (text l) = some l
  | [], _, hne, _, _ => absurd rfl hne
  | [a], 0, _, _, hn => absurd hn (by simp)
  | a :: b :: l, 0, _, _, hn => absurd hn (by simp)
  | [a], n + 1, _, hl, _ => by
    have hend : Ends [] := fun c hc => by cases hc
    have hread := readAttr_text (hl a List.mem_cons_self) hend
    rw [List.append_nil] at hread
    rw [text, readAux, hread]
    rfl
  | a :: b :: l, n + 1, _, hl, hn => by
    have hend : Ends (',' :: text (b :: l)) := by
      rintro c ⟨rfl⟩
      rfl
    have hread := readAttr_text (hl a List.mem_cons_self) hend
    have htail : readAux n (text (b :: l)) = some (b :: l) :=
      readAux_text (List.cons_ne_nil _ _) (fun c hc => hl c (List.mem_cons_of_mem _ hc))
        (Nat.le_of_succ_le_succ hn)
    rw [text, readAux, hread]
    simp only [Option.bind_some, if_true, htail, Option.map_some]

theorem length_le_text : ∀ {l : Attrs}, (∀ a ∈ l, AttrOk a) → l.length ≤ (text l).length
  | [], _ => Nat.zero_le _
  | [a], hl => List.length_pos_iff.mpr (attrText_ne_nil (hl a List.mem_cons_self))
  | a :: b :: l, hl => by
    have htail := length_le_text fun c hc => hl c (List.mem_cons_of_mem _ hc)
    simp only [text, List.length_append, List.length_cons] at htail ⊢
    omega

/-- **An attribute list is found again in its text.** -/
theorem read_text (hne : l ≠ []) (hl : ∀ a ∈ l, AttrOk a) : read (text l) = some l :=
  readAux_text hne hl (length_le_text hl)

theorem newline_notMem_attrText (ha : AttrOk a) : '\n' ∉ attrText a := by
  intro hmem
  rcases List.mem_append.mp hmem with hmem | hmem
  · exact absurd (ha.isName_name _ hmem) (by decide)
  · rcases List.mem_cons.mp hmem with heq | hmem
    · exact absurd heq (by decide)
    · have hvalue := ha.value
      rcases hv : a.2 with v | v
      · rw [hv] at hvalue hmem
        rcases List.mem_cons.mp hmem with heq | hmem
        · exact absurd heq (by decide)
        · rcases List.mem_append.mp hmem with hmem | hmem
          · exact absurd (hvalue _ hmem) (by decide)
          · exact absurd (List.mem_singleton.mp hmem) (by decide)
      · rw [hv] at hvalue hmem
        exact absurd (hvalue.2 _ hmem) (by decide)

theorem newline_notMem_text : ∀ {l : Attrs}, (∀ a ∈ l, AttrOk a) → '\n' ∉ text l
  | [], _ => List.not_mem_nil
  | [a], hl => newline_notMem_attrText (hl a List.mem_cons_self)
  | a :: b :: l, hl => by
    intro hmem
    rcases List.mem_append.mp hmem with hmem | hmem
    · exact newline_notMem_attrText (hl a List.mem_cons_self) hmem
    · rcases List.mem_cons.mp hmem with heq | hmem
      · exact absurd heq (by decide)
      · exact newline_notMem_text (fun c hc => hl c (List.mem_cons_of_mem _ hc)) hmem

/-! ### What is read can be written -/

theorem quotable_of_readValue (h : readValue s = some (.quoted rest, out)) :
    ∀ c ∈ rest, quotable c = true := by
  rcases s with _ | ⟨c, s⟩
  · cases h
  · rw [readValue] at h
    split at h
    · split at h
      · obtain ⟨hv, -⟩ := Prod.mk.inj (Option.some.inj h)
        rw [← Value.quoted.inj hv]
        exact fun c hc => List.mem_takeWhile_imp hc
      · cases h
    · split at h
      · cases h
      · cases h

/-- **A value that is read from quotes has none**, and no line break. -/
theorem quotable_of_readAux : ∀ {n : ℕ} {s : List Char} {l : Attrs}, readAux n s = some l →
    ∀ name v, (name, Value.quoted v) ∈ l → ∀ c ∈ v, quotable c = true
  | 0, _, _, h => by cases h
  | n + 1, s, l, h => by
    intro name v hmem
    rw [readAux] at h
    obtain ⟨⟨a, rest⟩, hattr, h⟩ := Option.bind_eq_some_iff.mp h
    have hhead : ∀ v, a.2 = .quoted v → ∀ c ∈ v, quotable c = true := by
      intro v hv
      rw [readAttr] at hattr
      split at hattr
      · obtain ⟨⟨w, out⟩, hvalue, heq⟩ := Option.map_eq_some_iff.mp hattr
        obtain ⟨rfl, -⟩ := Prod.mk.inj heq
        obtain rfl : w = .quoted v := hv
        exact quotable_of_readValue hvalue
      · cases hattr
    rcases rest with _ | ⟨d, rest⟩
    · obtain rfl := Option.some.inj h
      obtain rfl := List.mem_singleton.mp hmem
      exact hhead v rfl
    · simp only at h
      split at h
      · obtain ⟨l', htail, rfl⟩ := Option.map_eq_some_iff.mp h
        rcases List.mem_cons.mp hmem with rfl | hmem
        · exact hhead v rfl
        · exact quotable_of_readAux htail name v hmem
      · cases h

theorem quotable_of_read (h : read s = some l) {name v : List Char}
    (hmem : (name, Value.quoted v) ∈ l) : ∀ c ∈ v, quotable c = true :=
  quotable_of_readAux h name v hmem

end laws

end EmeraldExchange.AttributeList
