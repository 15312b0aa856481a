import PropertyFile.Yaml.Numeral

/-!
# Scalar styles

**How a text is written in YAML so that it is read back as this text.** The style
that suits the meaning comes first: literal for a text with line feeds, quotes
for a text that would otherwise be read as something other than a string, plain
for all others. If the characters of the text do not allow the style, the next
stricter one is taken; double quotes allow everything.
-/

namespace PropertyFile.Yaml

/-! ### Texts that are not read as strings -/

/-- The words for nothing, true and false. -/
def reservedWords : List String :=
  ["null", "Null", "NULL", "~", "true", "True", "TRUE", "false", "False", "FALSE"]

/-- The words for numbers that are not finite. -/
def specialNumbers : List String :=
  [".inf", ".Inf", ".INF", "+.inf", "+.Inf", "+.INF", "-.inf", "-.Inf", "-.INF",
    ".nan", ".NaN", ".NAN"]

/-- Would the text, written as it is, be read as something other than a string, or
easily be taken for it? -/
def isAmbiguous (cs : List Char) : Bool :=
  cs.isEmpty || reservedWords.any (·.toList == cs) || specialNumbers.any (·.toList == cs) ||
    Numeral.isBased cs || Numeral.isDecimal cs || Numeral.isZeroLed cs

/-! ### Characters -/

/-- A character that ends a line. -/
def isBreak (c : Char) : Bool :=
  c == '\n' || c == '\r' || c == '\u0085' || c == '\u2028' || c == '\u2029'

/-- A character that ends a word: a blank, a line break or NUL. -/
def isWordEnd (c : Char) : Bool :=
  c == ' ' || c == '\t' || c == '\x00' || isBreak c

/-- A character that can be written without an escape. -/
def isPrintable (c : Char) : Bool :=
  let n := c.toNat
  c == '\n' || (0x20 ≤ n && n ≤ 0x7E) ||
    (0xA0 ≤ n && n != 0xFEFF && n != 0xFFFE && n != 0xFFFF)

/-- The characters that have a meaning of their own at the start of a text. -/
def indicators : List Char :=
  ['#', ',', '[', ']', '\x7b', '\x7d', '&', '*', '!', '|', '>', '\x27', '"', '%', '@', '\x60']

/-- Does a text have a character that means something to YAML, given the
character before it? -/
def hasIndicator (previous : Option Char) : List Char → Bool
  | [] => false
  | c :: rest =>
      let beforeGap := rest.head?.all isWordEnd
      let here := match previous with
        | none => indicators.contains c || ((c == '?' || c == ':' || c == '-') && beforeGap)
        | some p => (c == ':' && beforeGap) || (c == '#' && isWordEnd p)
      here || hasIndicator (some c) rest

/-- Does the text start like the border of a document? -/
def startsLikeBorder (cs : List Char) : Bool :=
  ['-', '-', '-'].isPrefixOf cs || ['.', '.', '.'].isPrefixOf cs

/-- Is there a character that `p` holds of directly before one that `q` holds of? -/
def hasPair (p q : Char → Bool) : List Char → Bool
  | a :: b :: rest => (p a && q b) || hasPair p q (b :: rest)
  | _ => false

/-- Does a space stand directly before a line break? -/
def hasSpaceBreak (cs : List Char) : Bool :=
  hasPair (· == ' ') isBreak cs

/-- Does a line break stand directly before a space? -/
def hasBreakSpace (cs : List Char) : Bool :=
  hasPair isBreak (· == ' ') cs

/-! ### Styles -/

/-- The ways to write a text. -/
inductive Style
  | plain
  | singleQuoted
  | doubleQuoted
  | literal
deriving DecidableEq, Repr

namespace Style

/-- The style that suits the meaning of a text. -/
def preferred (cs : List Char) : Style :=
  if cs.contains '\n' then .literal
  else if isAmbiguous cs then .singleQuoted
  else .plain

/-- Can the text be written without quotes, on one line? -/
def allowsPlain (cs : List Char) : Bool :=
  cs.all (fun c => isPrintable c && !isBreak c) && !cs.head?.any (· == ' ') &&
    !cs.getLast?.any (· == ' ') && !hasIndicator none cs && !startsLikeBorder cs

/-- Can the text be written in single quotes? -/
def allowsSingleQuoted (cs : List Char) : Bool :=
  cs.all isPrintable && !hasBreakSpace cs && !hasSpaceBreak cs

/-- Can the text be written as a block of lines? -/
def allowsLiteral (cs : List Char) : Bool :=
  cs.all isPrintable && !cs.getLast?.any (· == ' ') && !hasSpaceBreak cs

/-- Takes a stricter style if the characters of the text ask for it. -/
def strengthen (cs : List Char) : Style → Style
  | .plain =>
      if allowsPlain cs then .plain
      else if allowsSingleQuoted cs then .singleQuoted
      else .doubleQuoted
  | .singleQuoted => if allowsSingleQuoted cs then .singleQuoted else .doubleQuoted
  | .literal => if allowsLiteral cs then .literal else .doubleQuoted
  | .doubleQuoted => .doubleQuoted

/-- The style in which a text is written. -/
def choose (cs : List Char) : Style :=
  strengthen cs (preferred cs)

end Style

end PropertyFile.Yaml
