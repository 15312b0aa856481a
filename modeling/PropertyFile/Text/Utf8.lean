/-!
# Reading bytes as text

Strict reading of UTF-8 refuses bytes that are not text. Lenient reading never
fails: it writes U+FFFD once for each longest run of bytes that begins a
character and is then broken off, and once for each byte that begins none.
-/

namespace PropertyFile.Text

/-- A character that its first bytes have begun: the range of the next byte, how
many bytes are missing, and the bits given so far. -/
structure PendingChar where
  low : Nat
  high : Nat
  missing : Nat
  bits : Nat
deriving DecidableEq, Repr

/-- What a byte that starts a character of two to four bytes asks of the rest.
The narrowed ranges shut out overlong forms, surrogates and code points above
U+10FFFF. -/
def PendingChar.ofByte? (b : Nat) : Option PendingChar :=
  if 0xC2 ≤ b && b ≤ 0xDF then some ⟨0x80, 0xBF, 1, b - 0xC0⟩
  else if b == 0xE0 then some ⟨0xA0, 0xBF, 2, 0⟩
  else if b == 0xED then some ⟨0x80, 0x9F, 2, 0xD⟩
  else if 0xE1 ≤ b && b ≤ 0xEF then some ⟨0x80, 0xBF, 2, b - 0xE0⟩
  else if b == 0xF0 then some ⟨0x90, 0xBF, 3, 0⟩
  else if 0xF1 ≤ b && b ≤ 0xF3 then some ⟨0x80, 0xBF, 3, b - 0xF0⟩
  else if b == 0xF4 then some ⟨0x80, 0x8F, 3, 4⟩
  else none

/-- U+FFFD, which stands for bytes that are no text. -/
def replacementChar : Char := '\uFFFD'

/-- Reads one byte that starts a character. -/
def startChar (b : Nat) : List Char × Option PendingChar :=
  if b < 0x80 then ([Char.ofNat b], none)
  else match PendingChar.ofByte? b with
    | some pending => ([], some pending)
    | none => ([replacementChar], none)

/-- Reads one byte, given the character that earlier bytes have begun. -/
def readByte (pending : Option PendingChar) (b : Nat) : List Char × Option PendingChar :=
  match pending with
  | none => startChar b
  | some p =>
      if p.low ≤ b && b ≤ p.high then
        let bits := p.bits * 64 + (b - 0x80)
        if p.missing ≤ 1 then ([Char.ofNat bits], none)
        else ([], some ⟨0x80, 0xBF, p.missing - 1, bits⟩)
      else
        let (cs, next) := startChar b
        (replacementChar :: cs, next)

/-- The characters that `bytes` add to a character that earlier bytes have begun. -/
def lenientFrom (pending : Option PendingChar) : List UInt8 → List Char
  | [] => if pending.isSome then [replacementChar] else []
  | b :: bytes =>
      let (cs, next) := readByte pending b.toNat
      cs ++ lenientFrom next bytes

/-- Lenient reading of bytes as UTF-8. -/
def ofBytesLenient (bytes : ByteArray) : String :=
  String.ofList (lenientFrom none bytes.toList)

/-- Strict reading of bytes as UTF-8. -/
def ofBytes? (bytes : ByteArray) : Option String :=
  String.fromUTF8? bytes

/-- The bytes of a text are read as this text. -/
@[simp] theorem ofBytes?_toUTF8 (text : String) : ofBytes? text.toUTF8 = some text :=
  dif_pos text.isValidUTF8

/-- Bytes that are read as a text are the bytes of this text. -/
theorem eq_toUTF8_of_ofBytes? {bytes : ByteArray} {text : String} (h : ofBytes? bytes = some text) :
    bytes = text.toUTF8 := by
  unfold ofBytes? String.fromUTF8? at h
  split at h
  · obtain rfl := Option.some.inj h
    rfl
  · cases h

end PropertyFile.Text
