import DataLiteral.Text.Digit

set_option autoImplicit false

namespace DataLiteral.Toml

structure Stop where
  rest : Text
  deriving DecidableEq, Repr

def Stop.offset (source : Text) (stop : Stop) : Nat :=
  Text.byteSize source - Text.byteSize stop.rest

abbrev Result (α : Type) := Except Stop (α × Text)

def isBlank (c : Char) : Bool :=
  c == ' ' || c == '\t'

def skipBlank (text : Text) : Text :=
  text.dropWhile isBlank

def isPlain (c : Char) : Bool :=
  c == '\t' || (0x20 ≤ c.toNat && c.toNat != 0x7f)

def scalar? (n : Nat) : Option Char :=
  if n.isValidChar then some (Char.ofNat n) else none

def readCodePoint (count : Nat) (text : Text) : Except Stop (Char × Text) :=
  let digits := text.take count
  match scalar? (Text.numeral 16 digits) with
  | some c =>
      if digits.length = count ∧ digits.all (Text.isDigitBelow 16) then
        .ok (c, text.drop count)
      else .error ⟨text⟩
  | none => .error ⟨text⟩

def readEscape : Text → Result Char
  | 'b' :: rest => .ok ('\x08', rest)
  | 't' :: rest => .ok ('\t', rest)
  | 'n' :: rest => .ok ('\n', rest)
  | 'f' :: rest => .ok ('\x0c', rest)
  | 'r' :: rest => .ok ('\r', rest)
  | 'e' :: rest => .ok ('\x1b', rest)
  | '"' :: rest => .ok ('"', rest)
  | '\\' :: rest => .ok ('\\', rest)
  | 'x' :: rest => readCodePoint 2 rest
  | 'u' :: rest => readCodePoint 4 rest
  | 'U' :: rest => readCodePoint 8 rest
  | text => .error ⟨text⟩

def consResult (c : Char) : Result Text → Result Text
  | .ok (cs, rest) => .ok (c :: cs, rest)
  | .error stop => .error stop

def readBasic : Nat → Text → Result Text
  | _, [] => .error ⟨[]⟩
  | 0, text => .error ⟨text⟩
  | fuel + 1, c :: rest =>
      if c = '"' then .ok ([], rest)
      else if c = '\\' then
        match readEscape rest with
        | .ok (d, rest) => consResult d (readBasic fuel rest)
        | .error stop => .error stop
      else if isPlain c then consResult c (readBasic fuel rest)
      else .error ⟨c :: rest⟩

def readLiteral : Text → Result Text
  | [] => .error ⟨[]⟩
  | c :: rest =>
      if c = '\'' then .ok ([], rest)
      else if isPlain c then consResult c (readLiteral rest)
      else .error ⟨c :: rest⟩

def takeBreak? : Text → Option Text
  | '\n' :: rest => some rest
  | '\r' :: '\n' :: rest => some rest
  | _ => none

def skipBreaks : Text → Text
  | '\n' :: rest => skipBreaks rest
  | '\r' :: '\n' :: rest => skipBreaks rest
  | c :: rest => if isBlank c then skipBreaks rest else c :: rest
  | [] => []

-- The closing of a string of several lines: three quotes, with up to two before them that belong
-- to the string.
def takeClosing? (q : Char) (text : Text) : Option (Text × Text) :=
  let quotes := (text.takeWhile (· == q)).length
  if quotes < 3 then none
  else
    let inside := min (quotes - 3) 2
    some (List.replicate inside q, text.drop (inside + 3))

def readLongBasic : Nat → Text → Result Text
  | _, [] => .error ⟨[]⟩
  | 0, text => .error ⟨text⟩
  | fuel + 1, c :: rest =>
      match takeClosing? '"' (c :: rest) with
      | some (inside, rest) => .ok (inside, rest)
      | none =>
          if c = '\\' then
            match takeBreak? (skipBlank rest) with
            | some rest => readLongBasic fuel (skipBreaks rest)
            | none =>
                match readEscape rest with
                | .ok (d, rest) => consResult d (readLongBasic fuel rest)
                | .error stop => .error stop
          else if isPlain c || (takeBreak? (c :: rest)).isSome then
            consResult c (readLongBasic fuel rest)
          else .error ⟨c :: rest⟩

def readLongLiteral : Text → Result Text
  | [] => .error ⟨[]⟩
  | c :: rest =>
      match takeClosing? '\'' (c :: rest) with
      | some (inside, rest) => .ok (inside, rest)
      | none =>
          if isPlain c || (takeBreak? (c :: rest)).isSome then consResult c (readLongLiteral rest)
          else .error ⟨c :: rest⟩

def skipFirstBreak (text : Text) : Text :=
  (takeBreak? text).getD text

def readString : Text → Result Text
  | '"' :: '"' :: '"' :: rest => readLongBasic rest.length (skipFirstBreak rest)
  | '\'' :: '\'' :: '\'' :: rest => readLongLiteral (skipFirstBreak rest)
  | '"' :: rest => readBasic rest.length rest
  | '\'' :: rest => readLiteral rest
  | text => .error ⟨text⟩

def isEscaped (q c : Char) : Bool :=
  q == '"' && (c == '"' || c == '\\')

def skipLine (q : Char) : Text → Text
  | [] => []
  | '\n' :: rest => '\n' :: rest
  | '\\' :: c :: rest => if isEscaped q c then skipLine q rest else skipLine q (c :: rest)
  | c :: rest => if c = q then rest else skipLine q rest

def skipLong (q : Char) : Text → Text
  | [] => []
  | '\\' :: c :: rest => if isEscaped q c then skipLong q rest else skipLong q (c :: rest)
  | c :: rest =>
      match takeClosing? q (c :: rest) with
      | some (_, rest) => rest
      | none => skipLong q rest

def skipString : Text → Text
  | '"' :: '"' :: '"' :: rest => skipLong '"' rest
  | '\'' :: '\'' :: '\'' :: rest => skipLong '\'' rest
  | '"' :: rest => skipLine '"' rest
  | '\'' :: rest => skipLine '\'' rest
  | text => text

-- Skips blanks, line ends and comments; `inComment` tells whether the text starts in one.
def skipTrivia (inComment : Bool) : Text → Except Stop Text
  | [] => .ok []
  | '\n' :: rest => skipTrivia false rest
  | '\r' :: '\n' :: rest => skipTrivia false rest
  | c :: rest =>
      if inComment then
        if isPlain c then skipTrivia true rest else .error ⟨c :: rest⟩
      else if isBlank c then skipTrivia false rest
      else if c = '#' then skipTrivia true rest
      else .ok (c :: rest)

def endLine (inComment : Bool) : Text → Except Stop Text
  | [] => .ok []
  | '\n' :: rest => .ok rest
  | '\r' :: '\n' :: rest => .ok rest
  | c :: rest =>
      if inComment then
        if isPlain c then endLine true rest else .error ⟨c :: rest⟩
      else if isBlank c then endLine false rest
      else if c = '#' then endLine true rest
      else .error ⟨c :: rest⟩

end DataLiteral.Toml
