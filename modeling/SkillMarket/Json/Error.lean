/-!
Why a text is not JSON, and where.

A reader stops with the text that is left and the number of its bytes it has looked at; the place
it names is the line and the column, in bytes, of the last byte it has seen.
-/

namespace SkillMarket.Json

/-- What is wrong with a text. -/
inductive Cause where
  | endInList
  | endInObject
  | endInString
  | endInValue
  | expectedColon
  | expectedListComma
  | expectedObjectComma
  | expectedIdent
  | expectedValue
  | invalidEscape
  | invalidNumber
  | numberOutOfRange
  | controlCharacter
  | keyNotString
  | loneSurrogate
  | endOfHexEscape
  | trailingComma
  | trailingCharacters
  | tooDeep
deriving DecidableEq, Repr

/-- The wording of a cause. -/
def Cause.message : Cause → String
  | endInList => "EOF while parsing a list"
  | endInObject => "EOF while parsing an object"
  | endInString => "EOF while parsing a string"
  | endInValue => "EOF while parsing a value"
  | expectedColon => "expected `:`"
  | expectedListComma => "expected `,` or `]`"
  | expectedObjectComma => "expected `,` or `\x7d`"
  | expectedIdent => "expected ident"
  | expectedValue => "expected value"
  | invalidEscape => "invalid escape"
  | invalidNumber => "invalid number"
  | numberOutOfRange => "number out of range"
  | controlCharacter => "control character (\\u0000-\\u001F) found while parsing a string"
  | keyNotString => "key must be a string"
  | loneSurrogate => "lone leading surrogate in hex escape"
  | endOfHexEscape => "unexpected end of hex escape"
  | trailingComma => "trailing comma"
  | trailingCharacters => "trailing characters"
  | tooDeep => "recursion limit exceeded"

/-- Where a reader stopped: the text that is left, and how many of its bytes were looked at. -/
structure Stop where
  cause : Cause
  rest : List Char
  seen : Nat
deriving DecidableEq, Repr

/-- The number of bytes of a text. -/
def byteLength (cs : List Char) : Nat := cs.foldl (fun n c => n + c.utf8Size) 0

/-- A line and a column, both counted from the start of the text. -/
structure Position where
  line : Nat
  column : Nat
deriving DecidableEq, Repr

/-- The position after a number of bytes, starting from a position. -/
def Position.advance (p : Position) : List Char → Nat → Position
  | [], _ => p
  | c :: rest, n =>
    if n < c.utf8Size then ⟨p.line, p.column + n⟩
    else if c = '\n' then Position.advance ⟨p.line + 1, 0⟩ rest (n - 1)
    else Position.advance ⟨p.line, p.column + c.utf8Size⟩ rest (n - c.utf8Size)

/-- A cause and its place. -/
structure Error where
  cause : Cause
  position : Position
deriving DecidableEq, Repr

/-- The place in the text at which a reader stopped. -/
def Stop.toError (stop : Stop) (text : List Char) : Error :=
  ⟨stop.cause, Position.advance ⟨1, 0⟩ text (byteLength text - byteLength stop.rest + stop.seen)⟩

def Error.message (e : Error) : String :=
  s!"{e.cause.message} at line {e.position.line} column {e.position.column}"

end SkillMarket.Json
