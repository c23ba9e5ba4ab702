import Mathlib.Algebra.Group.Int.Defs
import EmeraldExchange.Lib.Decimal

/-!
# JSON objects of strings and integers

The part of the JSON grammar that a flat object uses: members whose values are integers or
strings, without white space. A text is given by how it is *spelled*, since a character of a
string may stand there itself, as a short escape or as a `\u` escape: an
`Spelling` is a list of members so spelled, `Spelling.text` is the text and
`Spelling.members` what the grammar makes of it.

`parse` reads such texts, and `parse_text` says that
it reads every spelling as its value. So two spellings of one text have one value
(`members_eq_of_text_eq`), which is how an encoder is shown to be injective:
by spelling what it writes.
-/

namespace EmeraldExchange.Json

inductive Value
  | null
  | bool (b : Bool)
  | int (z : ℤ)
  | float (numeral : List Char)
  | string (s : String)
  | array (vs : List Value)
  | object (ms : List (String × Value))

def Value.asObject : Value → Option (List (String × Value))
  | .object ms => some ms
  | _ => none

/-- The value of a key: a later member takes the place of an earlier one. -/
def get (ms : List (String × Value)) (key : String) : Option Value :=
  (ms.reverse.find? fun m => m.1 = key).map Prod.snd

/-! ### Spellings -/

inductive Escape
  | quote | backslash | slash | backspace | formFeed | newline | return | tab
  deriving DecidableEq

def Escape.letter : Escape → Char
  | .quote => '"'
  | .backslash => '\\'
  | .slash => '/'
  | .backspace => 'b'
  | .formFeed => 'f'
  | .newline => 'n'
  | .return => 'r'
  | .tab => 't'

def Escape.char : Escape → Char
  | .quote => '"'
  | .backslash => '\\'
  | .slash => '/'
  | .backspace => '\x08'
  | .formFeed => '\x0c'
  | .newline => '\n'
  | .return => '\r'
  | .tab => '\t'

def Escape.ofLetter : Char → Option Escape
  | '"' => some .quote
  | '\\' => some .backslash
  | '/' => some .slash
  | 'b' => some .backspace
  | 'f' => some .formFeed
  | 'n' => some .newline
  | 'r' => some .return
  | 't' => some .tab
  | _ => none

/-- The value of a hexadecimal digit, of either case. -/
def hexValue (c : Char) : Option ℕ :=
  if '0' ≤ c ∧ c ≤ '9' then some (c.toNat - '0'.toNat)
  else if 'a' ≤ c ∧ c ≤ 'f' then some (c.toNat - 'a'.toNat + 10)
  else if 'A' ≤ c ∧ c ≤ 'F' then some (c.toNat - 'A'.toNat + 10)
  else none

/-- The character of four hexadecimal digits, if they are not half of a pair. -/
def hexChar (a b c d : Char) : Option Char := do
  let n := (((← hexValue a) * 16 + (← hexValue b)) * 16 + (← hexValue c)) * 16 + (← hexValue d)
  if n.isValidChar then some (Char.ofNat n) else none

def Plain (c : Char) : Prop := 0x20 ≤ c.toNat ∧ c ≠ '"' ∧ c ≠ '\\'

instance (c : Char) : Decidable (Plain c) := inferInstanceAs (Decidable (_ ∧ _ ∧ _))

/-- **How a character of a string is spelled.** -/
inductive Piece
  | plain (c : Char) (h : Plain c)
  | short (e : Escape)
  | unicode (a b c d : Char) (char : Char) (h : hexChar a b c d = some char)

def Piece.text : Piece → List Char
  | .plain c _ => [c]
  | .short e => ['\\', e.letter]
  | .unicode a b c d _ _ => ['\\', 'u', a, b, c, d]

def Piece.char : Piece → Char
  | .plain c _ => c
  | .short e => e.char
  | .unicode _ _ _ _ char _ => char

def stringText (ps : List Piece) : List Char := '"' :: (ps.flatMap Piece.text ++ ['"'])

def stringValue (ps : List Piece) : String := String.ofList (ps.map Piece.char)

inductive Scalar
  | int (z : ℤ)
  | string (ps : List Piece)

def Scalar.text : Scalar → List Char
  | .int z => Decimal.intText z
  | .string ps => stringText ps

def Scalar.value : Scalar → Value
  | .int z => .int z
  | .string ps => .string (stringValue ps)

/-- **A spelling of an object**: its members in order. -/
abbrev Spelling := List (List Piece × Scalar)

def memberText (m : List Piece × Scalar) : List Char := stringText m.1 ++ ':' :: m.2.text

/-- The text of the members, each but the first after a comma, and the closing brace. -/
def membersText : Spelling → List Char
  | [] => ['}']
  | [m] => memberText m ++ ['}']
  | m :: m' :: ms => memberText m ++ ',' :: membersText (m' :: ms)

def Spelling.text (ms : Spelling) : List Char := '{' :: membersText ms

def Spelling.members (ms : Spelling) : List (String × Value) :=
  ms.map fun m => (stringValue m.1, m.2.value)

/-- The integers of a spelling are those that 64 bits hold, of either sign. -/
def Spelling.InRange (ms : Spelling) : Prop :=
  ∀ m ∈ ms, ∀ z, m.2 = .int z → -2 ^ 63 ≤ z ∧ z < 2 ^ 64

theorem Spelling.inRange_nil : Spelling.InRange [] := by
  rintro m ⟨⟩

theorem Spelling.InRange.cons_int {ms : Spelling} (h : ms.InRange) (key : List Piece) {z : ℤ}
    (hle : -2 ^ 63 ≤ z) (hlt : z < 2 ^ 64) : Spelling.InRange ((key, .int z) :: ms) := by
  rintro m hm z' hz'
  rcases List.mem_cons.mp hm with rfl | hm
  · obtain rfl := Scalar.int.inj hz'
    exact ⟨hle, hlt⟩
  · exact h m hm z' hz'

theorem Spelling.InRange.cons_string {ms : Spelling} (h : ms.InRange) (key ps : List Piece) :
    Spelling.InRange ((key, .string ps) :: ms) := by
  rintro m hm z hz
  rcases List.mem_cons.mp hm with rfl | hm
  · exact absurd hz (by simp)
  · exact h m hm z hz

/-! ### The parser -/

/-- The rest of a string, up to its closing quote, and what follows. -/
def parseString : List Char → Option (List Char × List Char)
  | [] => none
  | '"' :: cs => some ([], cs)
  | '\\' :: 'u' :: a :: b :: c :: d :: cs =>
    match hexChar a b c d with
    | some char => (parseString cs).map fun p => (char :: p.1, p.2)
    | none => none
  | '\\' :: l :: cs =>
    match Escape.ofLetter l with
    | some e => (parseString cs).map fun p => (e.char :: p.1, p.2)
    | none => none
  | c :: cs => if Plain c then (parseString cs).map fun p => (c :: p.1, p.2) else none

def parseScalar : List Char → Option (Value × List Char)
  | '"' :: cs => (parseString cs).map fun p => (.string (String.ofList p.1), p.2)
  | cs => (Decimal.readInt cs).map fun p => (.int p.1, p.2)

def parseMember : List Char → Option ((String × Value) × List Char)
  | '"' :: cs => do
    let (key, cs) ← parseString cs
    match cs with
    | ':' :: cs => (parseScalar cs).map fun p => ((String.ofList key, p.1), p.2)
    | _ => none
  | _ => none

/-- At most `fuel` members, the last one before the closing brace. -/
def parseMembers : ℕ → List Char → Option (List (String × Value))
  | 0, _ => none
  | fuel + 1, cs => do
    let (m, cs) ← parseMember cs
    match cs with
    | ['}'] => some [m]
    | ',' :: cs => (parseMembers fuel cs).map (m :: ·)
    | _ => none

/-- **Read an object** of strings and integers. -/
def parse (cs : List Char) : Option Value :=
  match cs with
  | ['{', '}'] => some (.object [])
  | '{' :: cs => (parseMembers cs.length cs).map .object
  | _ => none

/-! ### Every spelling is read as its value -/

theorem parseString_plain {c : Char} (hc : Plain c) (cs : List Char) :
    parseString (c :: cs) = (parseString cs).map fun p => (c :: p.1, p.2) := by
  obtain ⟨-, hquote, hback⟩ := id hc
  rw [parseString.eq_def]
  split
  next heq => exact absurd heq (by simp)
  next heq => exact absurd (List.cons.inj heq).1 hquote
  next heq => exact absurd (List.cons.inj heq).1 hback
  next heq => exact absurd (List.cons.inj heq).1 hback
  next heq =>
    obtain ⟨rfl, rfl⟩ := List.cons.inj heq
    rw [if_pos hc]

theorem parseString_piece (p : Piece) (cs : List Char) :
    parseString (p.text ++ cs) = (parseString cs).map fun q => (p.char :: q.1, q.2) := by
  rcases p with ⟨c, hc⟩ | e | ⟨a, b, c, d, char, h⟩
  · exact parseString_plain hc cs
  · cases e <;> rfl
  · show parseString ('\\' :: 'u' :: a :: b :: c :: d :: cs) = _
    simp [parseString, h, Piece.char]

theorem parseString_pieces (ps : List Piece) (rest : List Char) :
    parseString (ps.flatMap Piece.text ++ '"' :: rest) = some (ps.map Piece.char, rest) := by
  induction ps with
  | nil => rfl
  | cons p ps ih =>
    rw [List.flatMap_cons, List.append_assoc, parseString_piece, ih]
    rfl

theorem stringText_append (ps : List Piece) (rest : List Char) :
    stringText ps ++ rest = '"' :: (ps.flatMap Piece.text ++ '"' :: rest) := by
  simp [stringText]

theorem parseScalar_text (v : Scalar) {rest : List Char} (h : Decimal.Ends rest) :
    parseScalar (v.text ++ rest) = some (v.value, rest) := by
  rcases v with z | ps
  · have hread := Decimal.readInt_intText_append z h
    show parseScalar (Decimal.intText z ++ rest) = some (.int z, rest)
    rw [parseScalar.eq_def]
    split
    next cs heq =>
      -- a numeral does not begin with a quote
      rw [heq] at hread
      exact absurd hread (by simp [Decimal.readInt, Decimal.read])
    next => rw [hread]; rfl
  · show parseScalar (stringText ps ++ rest) = some (.string (stringValue ps), rest)
    rw [stringText_append, parseScalar, parseString_pieces]
    rfl

theorem parseMember_text (m : List Piece × Scalar) {rest : List Char} (h : Decimal.Ends rest) :
    parseMember (memberText m ++ rest) = some ((stringValue m.1, m.2.value), rest) := by
  rw [memberText, List.append_assoc, stringText_append, parseMember, parseString_pieces]
  show (parseScalar (m.2.text ++ rest)).map _ = _
  rw [parseScalar_text m.2 h]
  rfl

theorem parseMembers_text (m : List Piece × Scalar) (ms : Spelling) {fuel : ℕ}
    (hfuel : ms.length < fuel) :
    parseMembers fuel (membersText (m :: ms)) = some (Spelling.members (m :: ms)) := by
  induction ms generalizing m fuel with
  | nil =>
    obtain ⟨fuel, rfl⟩ : ∃ f, fuel = f + 1 := ⟨fuel - 1, by simp at hfuel; omega⟩
    rw [membersText, parseMembers, parseMember_text m (Decimal.ends_cons (by decide) _)]
    rfl
  | cons m' ms ih =>
    rw [List.length_cons] at hfuel
    obtain ⟨fuel, rfl⟩ : ∃ f, fuel = f + 1 := ⟨fuel - 1, by omega⟩
    rw [membersText, parseMembers, parseMember_text m (Decimal.ends_cons (by decide) _)]
    show (parseMembers fuel (membersText (m' :: ms))).map _ = _
    rw [ih m' (by omega)]
    rfl

theorem length_le_membersText (ms : Spelling) : ms.length < (membersText ms).length := by
  induction ms with
  | nil => decide
  | cons m ms ih =>
    cases ms with
    | nil =>
      simp only [membersText, memberText, stringText, List.length_append, List.length_cons,
        List.length_nil]
      omega
    | cons m' ms =>
      simp only [membersText, List.length_append, List.length_cons] at ih ⊢
      omega

/-- **Every spelling is read as its value.** -/
theorem parse_text (ms : Spelling) : parse ms.text = some (.object ms.members) := by
  cases ms with
  | nil => rfl
  | cons m ms =>
    have hquote : ∃ cs, membersText (m :: ms) = '"' :: cs := by
      cases ms <;> simp [membersText, memberText, stringText]
    have hmembers : parseMembers (membersText (m :: ms)).length (membersText (m :: ms)) =
        some (Spelling.members (m :: ms)) := by
      have hlen := length_le_membersText (m :: ms)
      rw [List.length_cons] at hlen
      exact parseMembers_text m ms (by omega)
    obtain ⟨cs, hcs⟩ := hquote
    rw [Spelling.text, hcs, parse, ← hcs, hmembers]
    · rfl
    · simp

/-- **Spellings of one text have one value.** -/
theorem members_eq_of_text_eq {ms ms' : Spelling} (h : ms.text = ms'.text) :
    ms.members = ms'.members := by
  have hparse := parse_text ms
  rw [h, parse_text ms'] at hparse
  exact (Value.object.inj (Option.some.inj hparse)).symm

end EmeraldExchange.Json
