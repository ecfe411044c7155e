import DataLiteral.Decimal.Shortest
import DataLiteral.Text.Basic

set_option autoImplicit false

namespace DataLiteral.Decimal

def significant (d : Decimal) : Text :=
  Text.trimEnd '0' (Text.ofNat d.digits)

def point (d : Decimal) : Int :=
  (Text.ofNat d.digits).length + d.exponent

def positional (d : Decimal) : Text :=
  let digits := d.significant
  match d.point with
  | .negSucc zeros => "0.".toList ++ List.replicate (zeros + 1) '0' ++ digits
  | .ofNat 0 => "0.".toList ++ digits
  | .ofNat whole =>
      if digits.length ≤ whole then digits ++ List.replicate (whole - digits.length) '0'
      else digits.take whole ++ '.' :: digits.drop whole

def scientific (d : Decimal) : Text :=
  let exponent := 'e' :: Text.ofInt (d.point - 1)
  match d.significant with
  | [] => '0' :: exponent
  | [digit] => digit :: exponent
  | digit :: rest => digit :: '.' :: rest ++ exponent

end DataLiteral.Decimal
