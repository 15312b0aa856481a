import PropertyFile.Text.Hex

/-!
# Numbers in YAML

**Which texts a reader of YAML takes for a number.** An integer may be written in
base two, eight or sixteen, with a range of 128 bits. A decimal number, with or
without a fraction or an exponent, has to be in the range of double precision;
that covers every decimal integer of 128 bits. A row of digits with a needless
zero in front is no number, but close enough to one to need quotes.
-/

namespace PropertyFile.Yaml.Numeral

open PropertyFile.Text

/-! ### Integers in base two, eight and sixteen -/

/-- The number that the digits `cs` of a base continue after digits worth `acc`. -/
def digitsFrom? (base acc : Nat) : List Char → Option Nat
  | [] => some acc
  | c :: cs =>
      match hexDigit? c with
      | some d => if d < base then digitsFrom? base (base * acc + d) cs else none
      | none => none

/-- The number written by a non-empty row of digits of a base. -/
def digits? (base : Nat) (cs : List Char) : Option Nat :=
  if cs.isEmpty then none else digitsFrom? base 0 cs

/-- The number that a mark for the base and the digits after it write. -/
def based? : List Char → Option Nat
  | '0' :: 'x' :: cs => digits? 16 cs
  | '0' :: 'o' :: cs => digits? 8 cs
  | '0' :: 'b' :: cs => digits? 2 cs
  | _ => none

/-- Is the text an integer with a mark for its base, within 128 bits? -/
def isBased : List Char → Bool
  | '-' :: cs => (based? cs).any (· ≤ Nat.pow 2 127)
  | '+' :: cs => (based? cs).any (· < Nat.pow 2 128)
  | cs => (based? cs).any (· < Nat.pow 2 128)

/-! ### Decimal numbers -/

/-- A decimal number without its sign: a row of digits and a power of ten. -/
structure Decimal where
  digits : List Char
  exponent : Int
deriving DecidableEq, Repr

/-- The text after one sign. -/
def dropSign : List Char → List Char
  | '-' :: cs => cs
  | '+' :: cs => cs
  | cs => cs

/-- The number written by a non-empty row of decimal digits. -/
def natural? (cs : List Char) : Option Nat :=
  digits? 10 cs

/-- The exponent after its mark. -/
def signedNatural? : List Char → Option Int
  | '-' :: cs => (natural? cs).map fun n => -(n : Int)
  | '+' :: cs => (natural? cs).map fun n => (n : Int)
  | cs => (natural? cs).map fun n => (n : Int)

/-- The exponent at the end of a number, zero if there is none. -/
def exponent? : List Char → Option Int
  | [] => some 0
  | c :: cs => if c == 'e' || c == 'E' then signedNatural? cs else none

/-- Reads a decimal number without a sign. There has to be a digit before or
after the point. -/
def Decimal.parse? (cs : List Char) : Option Decimal :=
  let whole := cs.takeWhile Char.isDigit
  match cs.dropWhile Char.isDigit with
  | '.' :: rest =>
      let fraction := rest.takeWhile Char.isDigit
      if (whole ++ fraction).isEmpty then none
      else (exponent? (rest.dropWhile Char.isDigit)).map fun e =>
        ⟨whole ++ fraction, e - fraction.length⟩
  | rest =>
      if whole.isEmpty then none
      else (exponent? rest).map fun e => ⟨whole, e⟩

/-- The smallest number that is rounded to infinity in double precision: half a
step above the largest finite one. -/
def overflowBound : Nat :=
  Nat.pow 2 1024 - Nat.pow 2 970

/-- Is the number in the range of double precision? Numbers far from the bound
are told by their count of digits, so that no huge power of ten is formed. -/
def Decimal.isFinite (d : Decimal) : Bool :=
  let significant := d.digits.dropWhile (· == '0')
  let places : Int := significant.length + d.exponent
  if significant.isEmpty || places < 300 then true
  else if 320 < places then false
  else
    let n := (digitsFrom? 10 0 significant).getD 0
    n * Nat.pow 10 d.exponent.toNat < overflowBound * Nat.pow 10 (-d.exponent).toNat

/-- Is the text a decimal number in the range of double precision? -/
def isDecimal (cs : List Char) : Bool :=
  (Decimal.parse? (dropSign cs)).any Decimal.isFinite

/-- Is the text a row of digits with a needless zero in front? -/
def isZeroLed (cs : List Char) : Bool :=
  match dropSign cs with
  | '0' :: c :: rest => (c :: rest).all Char.isDigit
  | _ => false

end PropertyFile.Yaml.Numeral
