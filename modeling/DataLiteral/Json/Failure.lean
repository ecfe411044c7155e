import DataLiteral.Text.Position

set_option autoImplicit false

namespace DataLiteral.Json

inductive Cause where
  | expectedValue
  | expectedItemEnd
  | expectedEntryEnd
  | expectedColon
  | expectedIdent
  | keyNotString
  | trailingComma
  | trailingCharacters
  | endInValue
  | endInList
  | endInObject
  | endInString
  | invalidNumber
  | numberOutOfRange
  | controlCharacter
  | invalidEscape
  | unfinishedSurrogatePair
  | loneSurrogate
  | tooDeep
  deriving DecidableEq, Repr

def Cause.message : Cause → Text
  | .expectedValue => "expected value".toList
  | .expectedItemEnd => "expected \x60,\x60 or \x60]\x60".toList
  | .expectedEntryEnd => "expected \x60,\x60 or \x60\x7d\x60".toList
  | .expectedColon => "expected \x60:\x60".toList
  | .expectedIdent => "expected ident".toList
  | .keyNotString => "key must be a string".toList
  | .trailingComma => "trailing comma".toList
  | .trailingCharacters => "trailing characters".toList
  | .endInValue => "EOF while parsing a value".toList
  | .endInList => "EOF while parsing a list".toList
  | .endInObject => "EOF while parsing an object".toList
  | .endInString => "EOF while parsing a string".toList
  | .invalidNumber => "invalid number".toList
  | .numberOutOfRange => "number out of range".toList
  | .controlCharacter =>
      "control character (\\u0000-\\u001F) found while parsing a string".toList
  | .invalidEscape => "invalid escape".toList
  | .unfinishedSurrogatePair => "unexpected end of hex escape".toList
  | .loneSurrogate => "lone leading surrogate in hex escape".toList
  | .tooDeep => "recursion limit exceeded".toList

/-- A failure stands some bytes into the text that was left to read. -/
structure Failure where
  cause : Cause
  rest : Text
  ahead : Nat
  deriving DecidableEq, Repr

namespace Failure

-- A failure of the next byte, which counts as read. There is none at the end.
def next (cause : Cause) (rest : Text) : Failure :=
  ⟨cause, rest, if rest.isEmpty then 0 else 1⟩

def before (cause : Cause) (rest : Text) : Failure :=
  ⟨cause, rest, 0⟩

def index (source : Text) (failure : Failure) : Nat :=
  Text.byteSize source - Text.byteSize failure.rest + failure.ahead

def location (source : Text) (failure : Failure) : Text.Location :=
  Text.location source (failure.index source)

end Failure

abbrev Result (α : Type) := Except Failure (α × Text)

end DataLiteral.Json
