import DataLiteral.Indent
import DataLiteral.Quote

set_option autoImplicit false

namespace DataLiteral

structure Style where
  indentWidth : UInt8
  tabs : Bool
  quote : Quote
  deriving DecidableEq, Repr

namespace Style

def default : Style := ⟨2, false, .double⟩

def indent (style : Style) : Indent :=
  if style.tabs then .tab else .spaces style.indentWidth

end Style

end DataLiteral
