import DataLiteral.Notice
import DataLiteral.Value.Basic

set_option autoImplicit false

namespace DataLiteral

structure Assembly (ν π : Type) where
  null : ν
  boolean : Bool → ν
  number : Number → ν
  string : Text → Bool → ν
  array : List ν → Bool → ν
  property : Text → ν → π
  object : List π → Bool → ν

namespace Assembly

variable {ν π : Type}

def startsObjectLike : List Value → Bool
  | [] => false
  | first :: _ => first.isObjectLike

mutual

def build (A : Assembly ν π) (verbatim : Bool) : Value → Option ν × List Notice
  | .undefined => (none, [])
  | .null => (some A.null, [])
  | .boolean b => (some (A.boolean b), [])
  | .number n => (some (A.number n), [])
  | .string s => (some (A.string s verbatim), [])
  | .array items =>
      let built := buildItems A 0 items
      (some (A.array built.1 (startsObjectLike items)), built.2)
  | .record entries =>
      let built := buildEntries A entries
      (some (A.object built.1 true), built.2)

-- `index` counts the items, dropped ones included.
def buildItems (A : Assembly ν π) (index : Nat) : List Value → List ν × List Notice
  | [] => ([], [])
  | item :: rest =>
      let built := build A false item
      let later := buildItems A (index + 1) rest
      match built.1 with
      | some node => (node :: later.1, built.2 ++ later.2)
      | none => (later.1, built.2 ++ .droppedItem index :: later.2)

def buildEntries (A : Assembly ν π) : List (Text × Value) → List π × List Notice
  | [] => ([], [])
  | (key, value) :: rest =>
      let built := build A false value
      let later := buildEntries A rest
      match built.1 with
      | some node => (A.property key node :: later.1, built.2 ++ later.2)
      | none => (later.1, built.2 ++ .droppedProperty key :: later.2)

end

def buildArray (A : Assembly ν π) (items : List Value) (force : Bool) : ν × List Notice :=
  let built := buildItems A 0 items
  (A.array built.1 (startsObjectLike items || force), built.2)

def buildObject (A : Assembly ν π) (entries : Entries Value) (multiLine : Bool) :
    ν × List Notice :=
  let built := buildEntries A entries
  (A.object built.1 multiLine, built.2)

end Assembly

end DataLiteral
