import DataLiteral.Decimal.Shortest

set_option autoImplicit false

namespace DataLiteral.Decimal

-- Numbers from ten to this power are infinite as doubles, and those below its inverse zero.
def extent : Nat := 400

def nearest (negative : Bool) (d : Decimal) : Binary64 :=
  if d.digits = 0 then .zero negative
  else
    match d.exponent with
    | .ofNat n =>
        if extent ≤ n then .infinity negative else .ofRatio negative (d.digits * tenTo n) 1
    | .negSucc n =>
        if d.digits.log2 + extent ≤ n then .zero negative
        else .ofRatio negative d.digits (tenTo (n + 1))

end DataLiteral.Decimal
