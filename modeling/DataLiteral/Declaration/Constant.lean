import DataLiteral.Expr.Print

set_option autoImplicit false

namespace DataLiteral

structure Constant where
  name : Text
  value : Expr
  type : Option Text
  isExported : Bool
  deriving Repr

namespace Constant

def new (name : Text) (value : Expr) : Constant :=
  ⟨name, value, none, true⟩

def withType (constant : Constant) (type : Text) : Constant :=
  { constant with type := some type }

def unexported (constant : Constant) : Constant :=
  { constant with isExported := false }

def head (constant : Constant) : Text :=
  (if constant.isExported then "export ".toList else []) ++ "const ".toList ++ constant.name ++
    (match constant.type with
      | some type => ": ".toList ++ type
      | none => []) ++ " = ".toList

end Constant

def Layout.constant (layout : Layout) (q : Quote) (constant : Constant) : Layout :=
  ((layout.indentation.raw constant.head).expr q constant.value).raw ";\n".toList

def Constant.print (style : Style) (constant : Constant) : Text :=
  ((Layout.empty style.indent).constant style.quote constant).text

end DataLiteral
