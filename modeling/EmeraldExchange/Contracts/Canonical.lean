import EmeraldExchange.Lib.Json

/-!
# Canonical JSON strings

Stream tokens are signed over a text that is written by hand, so that every language writes the
same bytes: a string stands in quotes, with the short escapes, other control characters as
`\u00xx`, and everything else as itself.

`exists_pieces` spells such a text in the grammar of
`Json`: whatever the string holds, what is written is read as that string.
-/

namespace EmeraldExchange.Contracts

open Json

/-- Four lowercase hexadecimal digits, as `{:04x}` writes them. -/
def hex4 (n : ℕ) : List Char := (Nat.toDigits 16 n).leftpad 4 '0'

def escapeChar (ch : Char) : List Char :=
  match ch with
  | '"' => ['\\', '"']
  | '\\' => ['\\', '\\']
  | '\x08' => ['\\', 'b']
  | '\t' => ['\\', 't']
  | '\n' => ['\\', 'n']
  | '\x0c' => ['\\', 'f']
  | '\r' => ['\\', 'r']
  | c => if c.toNat < 0x20 then '\\' :: 'u' :: hex4 c.toNat else [c]

/-- **Escape a string**, quotes included. -/
def jsonEscapeString (s : String) : List Char := '"' :: (s.toList.flatMap escapeChar ++ ['"'])

example : jsonEscapeString "\n\t\r\x08\x0c" = "\"\\n\\t\\r\\b\\f\"".toList := by decide

example : jsonEscapeString "\x01\x19" = "\"\\u0001\\u0019\"".toList := by decide

/-! ### What is written is read -/

theorem exists_hexChar {n : ℕ} (h : n < 0x20) :
    ∃ a b c d, hex4 n = [a, b, c, d] ∧ hexChar a b c d = some (Char.ofNat n) := by
  have hall : ∀ m : Fin 0x20, hexChar (hex4 m)[0]! (hex4 m)[1]! (hex4 m)[2]! (hex4 m)[3]! =
      some (Char.ofNat m) ∧ hex4 m = [(hex4 m)[0]!, (hex4 m)[1]!, (hex4 m)[2]!, (hex4 m)[3]!] := by
    decide +kernel
  obtain ⟨hchar, hdigits⟩ := hall ⟨n, h⟩
  exact ⟨_, _, _, _, hdigits, hchar⟩

/-- **Every character is spelled as it is escaped.** -/
theorem exists_piece (ch : Char) : ∃ p : Piece, p.text = escapeChar ch ∧ p.char = ch := by
  rw [escapeChar.eq_def]
  split
  · exact ⟨.short .quote, rfl, rfl⟩
  · exact ⟨.short .backslash, rfl, rfl⟩
  · exact ⟨.short .backspace, rfl, rfl⟩
  · exact ⟨.short .tab, rfl, rfl⟩
  · exact ⟨.short .newline, rfl, rfl⟩
  · exact ⟨.short .formFeed, rfl, rfl⟩
  · exact ⟨.short .return, rfl, rfl⟩
  · next hquote hbackslash _ _ _ _ _ =>
    split
    · next hcontrol =>
      obtain ⟨a, b, c, d, hdigits, hchar⟩ := exists_hexChar hcontrol
      rw [Char.ofNat_toNat] at hchar
      exact ⟨.unicode a b c d ch hchar, by rw [hdigits]; rfl, rfl⟩
    · next hcontrol =>
      have hplain : Plain ch := ⟨by omega, fun h => hquote h, fun h => hbackslash h⟩
      exact ⟨.plain ch hplain, rfl, rfl⟩

/-- **Every string is spelled as it is escaped.** -/
theorem exists_pieces (s : String) :
    ∃ ps, stringText ps = jsonEscapeString s ∧ stringValue ps = s := by
  have hpieces : ∀ cs : List Char, ∃ ps : List Piece,
      ps.flatMap Piece.text = cs.flatMap escapeChar ∧ ps.map Piece.char = cs := by
    intro cs
    induction cs with
    | nil => exact ⟨[], rfl, rfl⟩
    | cons ch cs ih =>
      obtain ⟨p, htext, hchar⟩ := exists_piece ch
      obtain ⟨ps, htexts, hchars⟩ := ih
      exact ⟨p :: ps, by simp [htext, htexts], by simp [hchar, hchars]⟩
  obtain ⟨ps, htext, hchars⟩ := hpieces s.toList
  refine ⟨ps, ?_, ?_⟩
  · rw [stringText, htext, jsonEscapeString]
  · rw [stringValue, hchars, String.ofList_toList]

end EmeraldExchange.Contracts
