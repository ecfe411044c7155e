import DataLiteral.Text.Digit

set_option autoImplicit false

namespace DataLiteral

inductive Quote where
  | double
  | single
  deriving DecidableEq, Repr, Inhabited

namespace Quote

def char : Quote → Char
  | .double => '"'
  | .single => '\''

def other : Quote → Quote
  | .double => .single
  | .single => .double

def name : Quote → Text
  | .double => "double".toList
  | .single => "single".toList

def ofName? (name : Text) : Option Quote :=
  if name = Quote.double.name then some .double
  else if name = Quote.single.name then some .single
  else none

theorem ofName?_name (q : Quote) : ofName? q.name = some q := by
  cases q <;> rfl

def backtick : Char := '\x60'

def hexUpper (n : Nat) : Char :=
  (Nat.digitChar n).toUpper

def hexByte (n : Nat) : Text :=
  [hexUpper (n / 16 % 16), hexUpper (n % 16)]

-- How `c` is written in a literal. A NUL takes its long form before a digit, which its short
-- form would absorb.
def escapeChar (q : Quote) (c : Char) (rest : Text) : Text :=
  if c = '\\' then ['\\', '\\']
  else if c = '\n' then ['\\', 'n']
  else if c = '\r' then ['\\', 'r']
  else if c = '\t' then ['\\', 't']
  else if c = '\x08' then ['\\', 'b']
  else if c = '\x0b' then ['\\', 'v']
  else if c = '\x0c' then ['\\', 'f']
  else if c = '\x00' then
    if Text.startsWithDigit rest then ['\\', 'x', '0', '0'] else ['\\', '0']
  else if c = '\u2028' then "\\u2028".toList
  else if c = '\u2029' then "\\u2029".toList
  else if c = q.char then ['\\', c]
  else if c.toNat < 0x20 || c = '\x7f' then '\\' :: 'x' :: hexByte c.toNat
  else [c]

def escapeBody (q : Quote) : Text → Text
  | [] => []
  | c :: rest => escapeChar q c rest ++ escapeBody q rest

def escape (q : Quote) (text : Text) : Text :=
  q.char :: (escapeBody q text ++ [q.char])

def opensSubstitution (c : Char) (rest : Text) : Bool :=
  c == '$' && rest.head? == some '\x7b'

-- Puts a backslash before every backtick and every substitution opener that has none. `escaped`
-- tells whether an unpaired backslash stands just before.
def templateBody (escaped : Bool) : Text → Text
  | [] => []
  | c :: rest =>
      let rest' := templateBody (c == '\\' && !escaped) rest
      if !escaped && (c == backtick || opensSubstitution c rest) then '\\' :: c :: rest'
      else c :: rest'

def template (text : Text) : Text :=
  backtick :: (templateBody false text ++ [backtick])

/-- The literal that holds escaped text as it stands: in the quote asked for, or in the other one
if the text holds the first, or as a template if it holds both or a line break. -/
def verbatim (q : Quote) (text : Text) : Text :=
  let preferred := text.contains q.char
  if text.any Text.isBreak || preferred && text.contains q.other.char then template text
  else
    let delimiter := if preferred then q.other.char else q.char
    delimiter :: (text ++ [delimiter])

end Quote

end DataLiteral
