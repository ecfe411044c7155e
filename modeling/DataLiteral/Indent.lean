import DataLiteral.Text.Basic

set_option autoImplicit false

namespace DataLiteral

inductive Indent where
  | spaces (width : UInt8)
  | tab
  deriving DecidableEq, Repr

namespace Indent

def text : Indent → Text
  | .spaces width => List.replicate width.toNat ' '
  | .tab => ['\t']

def margin (indent : Indent) : Nat → Text
  | 0 => []
  | level + 1 => indent.text ++ indent.margin level

end Indent

end DataLiteral
