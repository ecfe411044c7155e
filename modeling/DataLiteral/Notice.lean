import DataLiteral.Text.Basic

set_option autoImplicit false

namespace DataLiteral

inductive Notice where
  | droppedItem (index : Nat)
  | droppedProperty (key : Text)
  | builtAlias (name referenced : Text) (parameters : Nat)
  deriving DecidableEq, Repr

def Notice.text : Notice → Text
  | .droppedItem index => "TRACE dropping undefined array element at index ".toList ++ .ofNat index
  | .droppedProperty key => "TRACE dropping undefined property '".toList ++ key ++ ['\'']
  | .builtAlias name referenced parameters =>
      "DEBUG built type alias '".toList ++ name ++ "' = '".toList ++ referenced ++ "' (".toList ++
        .ofNat parameters ++ " type parameters)".toList

end DataLiteral
