import DataLiteral.Text.Basic

set_option autoImplicit false

namespace DataLiteral

def isWordStart (c : Char) : Bool :=
  c.isAlpha || c == '_' || c == '$'

def isIdentifier : Text → Bool
  | [] => false
  | c :: rest => isWordStart c && rest.all fun d => isWordStart d || d.isDigit

end DataLiteral
