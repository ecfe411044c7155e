import DataLiteral.Json.Failure
import DataLiteral.Text.Digit

set_option autoImplicit false

namespace DataLiteral.Json

def hexUnit? (a b c d : Char) : Option Nat := do
  let a ← Text.hexValue? a
  let b ← Text.hexValue? b
  let c ← Text.hexValue? c
  let d ← Text.hexValue? d
  return ((a * 16 + b) * 16 + c) * 16 + d

-- Four hexadecimal digits. Four bytes count as read even if they are none.
def readUnit (text : Text) : Result Nat :=
  let failure : Failure :=
    if Text.byteSize text < 4 then .before .endInString [] else ⟨.invalidEscape, text, 4⟩
  match text with
  | a :: b :: c :: d :: rest =>
      match hexUnit? a b c d with
      | some unit => .ok (unit, rest)
      | none => .error failure
  | _ => .error failure

def expect (wanted : Char) : Text → Except Failure Text
  | [] => .error (.next .endInString [])
  | c :: rest =>
      if c = wanted then .ok rest else .error (.next .unfinishedSurrogatePair (c :: rest))

def isLeading (unit : Nat) : Bool :=
  0xD800 ≤ unit && unit ≤ 0xDBFF

def isTrailing (unit : Nat) : Bool :=
  0xDC00 ≤ unit && unit ≤ 0xDFFF

def readScalar (text : Text) : Except Failure (Char × Text) := do
  let (unit, rest) ← readUnit text
  if isTrailing unit then .error (.before .loneSurrogate rest)
  else if isLeading unit then
    let rest ← expect '\\' rest
    let rest ← expect 'u' rest
    let (trailing, rest) ← readUnit rest
    if isTrailing trailing then
      .ok (Char.ofNat (0x10000 + (unit - 0xD800) * 1024 + (trailing - 0xDC00)), rest)
    else .error (.before .loneSurrogate rest)
  else .ok (Char.ofNat unit, rest)

def readEscape : Text → Result Char
  | [] => .error (.next .endInString [])
  | '"' :: rest => .ok ('"', rest)
  | '\\' :: rest => .ok ('\\', rest)
  | '/' :: rest => .ok ('/', rest)
  | 'b' :: rest => .ok ('\x08', rest)
  | 'f' :: rest => .ok ('\x0c', rest)
  | 'n' :: rest => .ok ('\n', rest)
  | 'r' :: rest => .ok ('\r', rest)
  | 't' :: rest => .ok ('\t', rest)
  | 'u' :: rest => readScalar rest
  | text => .error (.next .invalidEscape text)

def readCharacters : Nat → Text → Result Text
  | _, [] => .error (.next .endInString [])
  | 0, text => .error (.next .endInString text)
  | fuel + 1, c :: rest =>
      if c = '"' then .ok ([], rest)
      else if c = '\\' then
        match readEscape rest with
        | .error failure => .error failure
        | .ok (d, rest) =>
            match readCharacters fuel rest with
            | .error failure => .error failure
            | .ok (ds, rest) => .ok (d :: ds, rest)
      else if c.toNat < 0x20 then .error (.next .controlCharacter (c :: rest))
      else
        match readCharacters fuel rest with
        | .error failure => .error failure
        | .ok (ds, rest) => .ok (c :: ds, rest)

def readString (text : Text) : Result Text :=
  readCharacters text.length text

end DataLiteral.Json
