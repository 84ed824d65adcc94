/-!
The tokens of a JSON text. A quoted text is kept as it is written, escapes included, and so is a
number: what they stand for only matters where a reader wants a value from them.
-/

namespace ShaderReflection.Json

/-- A token of a JSON text. -/
inductive Token where
  | openBrace
  | closeBrace
  | openBracket
  | closeBracket
  | colon
  | comma
  | null
  | bool (value : Bool)
  | number (text : List UInt8)
  /-- What stands between two quotes, as written. -/
  | quoted (text : List UInt8)
  deriving DecidableEq, Repr

/-- Whether a byte is white space between tokens. -/
def isSpace (byte : UInt8) : Bool :=
  byte == ' '.toUInt8 || byte == '\n'.toUInt8 || byte == '\t'.toUInt8 || byte == '\r'.toUInt8

/-- Whether a byte is a decimal digit. -/
def isDigit (byte : UInt8) : Bool := '0'.toUInt8 ≤ byte && byte ≤ '9'.toUInt8

/-- The value of a hexadecimal digit in either case. -/
def hexValue? (byte : UInt8) : Option Nat :=
  if isDigit byte then some (byte.toNat - '0'.toNat)
  else if 'a'.toUInt8 ≤ byte && byte ≤ 'f'.toUInt8 then some (byte.toNat - 'a'.toNat + 10)
  else if 'A'.toUInt8 ≤ byte && byte ≤ 'F'.toUInt8 then some (byte.toNat - 'A'.toNat + 10)
  else none

/-- The escaped characters that stand for one character: a letter after the backslash and the byte
that the two stand for. -/
def escapes : List (UInt8 × UInt8) :=
  [('"'.toUInt8, 0x22), ('\\'.toUInt8, 0x5C), ('/'.toUInt8, 0x2F), ('b'.toUInt8, 0x08),
    ('f'.toUInt8, 0x0C), ('n'.toUInt8, 0x0A), ('r'.toUInt8, 0x0D), ('t'.toUInt8, 0x09)]

/-- Whether a byte may stand in a number or in one of the words `true`, `false` and `null`. -/
def isBare (byte : UInt8) : Bool :=
  isDigit byte || byte == '+'.toUInt8 || byte == '-'.toUInt8 || byte == '.'.toUInt8 ||
    ('a'.toUInt8 ≤ byte && byte ≤ 'z'.toUInt8) || ('A'.toUInt8 ≤ byte && byte ≤ 'Z'.toUInt8)

/-- The rest of a text after one or more digits. -/
def afterDigits? (text : List UInt8) : Option (List UInt8) :=
  match text with
  | first :: rest => if isDigit first then some (rest.dropWhile isDigit) else none
  | [] => none

/-- The rest of a text after the whole part of a number, which has no needless zero in front. -/
def afterWhole? (text : List UInt8) : Option (List UInt8) :=
  match text with
  | first :: rest => if first == '0'.toUInt8 then some rest else afterDigits? text
  | [] => none

/-- Whether a text is an exponent, or nothing at all. -/
def isExponent (text : List UInt8) : Bool :=
  match text with
  | [] => true
  | first :: rest =>
    let digits := match rest with
      | sign :: digits => if sign == '+'.toUInt8 || sign == '-'.toUInt8 then digits else rest
      | [] => rest
    (first == 'e'.toUInt8 || first == 'E'.toUInt8) && afterDigits? digits == some []

/-- Whether a text is a number: a sign, a whole part, a fraction and an exponent, of which only the
whole part has to be there. -/
def isNumber (text : List UInt8) : Bool :=
  let unsigned := match text with
    | first :: rest => if first == '-'.toUInt8 then rest else text
    | [] => text
  match afterWhole? unsigned with
  | none => false
  | some [] => true
  | some (first :: rest) =>
    if first == '.'.toUInt8 then
      match afterDigits? rest with
      | none => false
      | some exponent => isExponent exponent
    else isExponent (first :: rest)

/-- The token that a run of bare bytes forms. -/
def Token.ofBare? (text : List UInt8) : Option Token :=
  if text == "true".toUTF8.toList then some (.bool true)
  else if text == "false".toUTF8.toList then some (.bool false)
  else if text == "null".toUTF8.toList then some .null
  else if isNumber text then some (.number text)
  else none

/-- The token that a single byte forms. -/
def Token.ofPunctuation? (byte : UInt8) : Option Token :=
  if byte == '{'.toUInt8 then some .openBrace
  else if byte == '}'.toUInt8 then some .closeBrace
  else if byte == '['.toUInt8 then some .openBracket
  else if byte == ']'.toUInt8 then some .closeBracket
  else if byte == ':'.toUInt8 then some .colon
  else if byte == ','.toUInt8 then some .comma
  else none

/-- What a lexer is in the middle of. Bytes already read are held last byte first. -/
inductive Lexer.Mode where
  | between
  | bare (read : List UInt8)
  | quoted (read : List UInt8)
  /-- After a backslash. -/
  | escaped (read : List UInt8)
  /-- In a `\u` escape that needs `count + 1` more hexadecimal digits. -/
  | codeUnit (count : Nat) (read : List UInt8)

/-- A lexer between two bytes, with its tokens held last token first. -/
structure Lexer where
  tokens : List Token
  mode : Lexer.Mode

namespace Lexer

/-- Reads a byte that begins a token or separates two. -/
def start (tokens : List Token) (byte : UInt8) : Option Lexer :=
  if isSpace byte then some ⟨tokens, .between⟩
  else if byte == '"'.toUInt8 then some ⟨tokens, .quoted []⟩
  else if isBare byte then some ⟨tokens, .bare [byte]⟩
  else (Token.ofPunctuation? byte).map fun token => ⟨token :: tokens, .between⟩

/-- Reads one byte. Quoted text must not hold control characters, and its escapes must be known
ones. -/
def push (lexer : Lexer) (byte : UInt8) : Option Lexer :=
  match lexer.mode with
  | .between => start lexer.tokens byte
  | .bare read =>
    if isBare byte then some ⟨lexer.tokens, .bare (byte :: read)⟩
    else
      match Token.ofBare? read.reverse with
      | none => none
      | some token => start (token :: lexer.tokens) byte
  | .quoted read =>
    if byte == '"'.toUInt8 then some ⟨.quoted read.reverse :: lexer.tokens, .between⟩
    else if byte == '\\'.toUInt8 then some ⟨lexer.tokens, .escaped (byte :: read)⟩
    else if byte < 0x20 then none
    else some ⟨lexer.tokens, .quoted (byte :: read)⟩
  | .escaped read =>
    if byte == 'u'.toUInt8 then some ⟨lexer.tokens, .codeUnit 3 (byte :: read)⟩
    else if escapes.any (·.1 == byte) then some ⟨lexer.tokens, .quoted (byte :: read)⟩
    else none
  | .codeUnit count read =>
    if (hexValue? byte).isNone then none
    else
      match count with
      | 0 => some ⟨lexer.tokens, .quoted (byte :: read)⟩
      | count + 1 => some ⟨lexer.tokens, .codeUnit count (byte :: read)⟩

/-- The tokens read once the text has ended, unless it ended inside quotes. -/
def finish (lexer : Lexer) : Option (List Token) :=
  match lexer.mode with
  | .between => some lexer.tokens.reverse
  | .bare read => (Token.ofBare? read.reverse).map fun token => (token :: lexer.tokens).reverse
  | _ => none

end Lexer

/-- The tokens of a text. -/
def Token.ofText? (text : List UInt8) : Option (List Token) :=
  (text.foldlM Lexer.push ⟨[], .between⟩).bind Lexer.finish

end ShaderReflection.Json
