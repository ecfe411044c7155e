import DataLiteral.Entries
import DataLiteral.Number

set_option autoImplicit false

namespace DataLiteral

/-- A document's value. An undefined value stands for nothing and leaves no trace in a literal. -/
inductive Value where
  | undefined
  | null
  | boolean (value : Bool)
  | number (value : Number)
  | string (value : Text)
  | array (items : List Value)
  | record (entries : List (Text × Value))
  deriving Repr, Inhabited

namespace Value

def ofEntries (entries : Entries Value) : Value :=
  .record entries.collect

def isObjectLike : Value → Bool
  | .record _ => true
  | .null => true
  | _ => false

mutual

def same : Value → Value → Bool
  | .undefined, .undefined => true
  | .null, .null => true
  | .boolean a, .boolean b => a == b
  | .number a, .number b => a.same b
  | .string a, .string b => a == b
  | .array xs, .array ys => sameItems xs ys
  | .record es, .record fs => es.length == fs.length && sameEntries es fs
  | _, _ => false

def sameItems : List Value → List Value → Bool
  | [], [] => true
  | x :: xs, y :: ys => same x y && sameItems xs ys
  | _, _ => false

def sameEntries : List (Text × Value) → List (Text × Value) → Bool
  | [], _ => true
  | (key, x) :: rest, fs =>
      (match Entries.find? key fs with
        | some y => same x y
        | none => false) && sameEntries rest fs

end

end Value

end DataLiteral
