import DataLiteral.Toml.Reader
import DataLiteral.Value.Basic

set_option autoImplicit false

namespace DataLiteral.Toml

open Text (Span)

def integer? (n : Int) : Option Int64 :=
  if Int64.minValue.toInt ≤ n ∧ n ≤ Int64.maxValue.toInt then some (.ofInt n) else none

def Scalar.toValue? : Scalar → Option Value
  | .string s => some (.string s)
  | .integer n => (integer? n).map fun n => .number (.int n)
  | .float x => some (.number (.float x))
  | .hugeFloat => none
  | .boolean b => some (.boolean b)
  | .datetime d => some (.string d.text)

-- A table whose first key is this one stands for the datetime that the key's string spells.
def datetimeKey : Text :=
  "$__toml_private_datetime".toList

def datetimeItem? : List (Key × Item) → Option Item
  | [] => none
  | (key, item) :: _ => if key.name = datetimeKey then some item else none

def Item.datetimeText? : Item → Option Text
  | .scalar _ (.string s) => (readDatetime? s).map Datetime.text
  | _ => none

def orUnusable {α : Type} (span : Span) : Option α → Except Failure α
  | some result => .ok result
  | none => .error (.unusable span)

mutual

def Item.toValue : Item → Except Failure Value
  | .scalar span value => orUnusable span value.toValue?
  | .array _ _ items => do
      let values ← itemValues items
      return .array values
  | .table span _ entries =>
      match datetimeItem? entries with
      | some item => orUnusable span (item.datetimeText?.map Value.string)
      | none => do
          let values ← entryValues entries
          return .record values

def itemValues : List Item → Except Failure (List Value)
  | [] => .ok []
  | item :: rest => do
      let value ← item.toValue
      let values ← itemValues rest
      return value :: values

def entryValues : List (Key × Item) → Except Failure (List (Text × Value))
  | [] => .ok []
  | (key, item) :: rest => do
      let value ← item.toValue
      let values ← entryValues rest
      return (key.name, value) :: values

end

def read (source : Text) : Except Failure Value := do
  let table ← readTable source
  let values ← entryValues table.entries
  return .record values

end DataLiteral.Toml
