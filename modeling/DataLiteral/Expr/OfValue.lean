import DataLiteral.Assembly
import DataLiteral.Expr.Basic

set_option autoImplicit false

namespace DataLiteral.Expr

def assembly : Assembly Expr (Text × Expr) where
  null := .null
  boolean := .boolean
  number := .number
  string := .string
  array := .array
  property := Prod.mk
  object := .object

def ofValueWith (verbatim : Bool) (value : Value) : Option Expr × List Notice :=
  assembly.build verbatim value

def ofValue (value : Value) : Option Expr × List Notice :=
  ofValueWith false value

def ofItems (items : List Value) (force : Bool) : Expr × List Notice :=
  assembly.buildArray items force

def ofEntries (entries : Entries Value) (multiLine : Bool) : Expr × List Notice :=
  assembly.buildObject entries multiLine

end DataLiteral.Expr
