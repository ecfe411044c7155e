import DataLiteral.Text.Basic
import DataLiteral.Text.Unprintable

set_option autoImplicit false

namespace DataLiteral.Text

def quotedChar (c : Char) : Text :=
  if c = '\x00' then ['\\', '0']
  else if c = '\t' then ['\\', 't']
  else if c = '\r' then ['\\', 'r']
  else if c = '\n' then ['\\', 'n']
  else if c = '\\' || c = '"' then ['\\', c]
  else if isUnprintable c then "\\u\x7b".toList ++ Nat.toDigits 16 c.toNat ++ "\x7d".toList
  else [c]

def quoted (text : Text) : Text :=
  '"' :: (text.flatMap quotedChar ++ ['"'])

end DataLiteral.Text
