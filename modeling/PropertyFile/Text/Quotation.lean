import PropertyFile.Text.Hex

/-!
# Quotations

A text in quotes, for logs and descriptions. Which characters beyond ASCII can be shown
changes as characters are assigned, so the table of those is left to whoever quotes.
-/

namespace PropertyFile.Text

/-- One character of a quoted text. A character beyond ASCII is shown as it is if it is
`visible`, and by its number otherwise. -/
def quotedChar (visible : Char → Bool) : Char → List Char
  | '"' => ['\\', '"']
  | '\\' => ['\\', '\\']
  | '\n' => ['\\', 'n']
  | '\t' => ['\\', 't']
  | '\r' => ['\\', 'r']
  | '\x00' => ['\\', '0']
  | c =>
      let shown := if c.toNat < 0x80 then 0x20 ≤ c.toNat && c.toNat < 0x7F else visible c
      if shown then [c] else ['\\', 'u', '\x7b'] ++ HexCase.lower.digits c.toNat ++ ['\x7d']

/-- A text in quotes. -/
def quoted (visible : Char → Bool) (text : String) : String :=
  String.ofList ('"' :: text.toList.flatMap (quotedChar visible) ++ ['"'])

end PropertyFile.Text
