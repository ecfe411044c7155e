import DataLiteral.Assembly

set_option autoImplicit false

namespace DataLiteral

structure Factory (σ ν π : Type) where
  null : StateM σ ν
  boolean : Bool → StateM σ ν
  number : Number → StateM σ ν
  string : Text → Bool → StateM σ ν
  array : List ν → Bool → StateM σ ν
  property : Text → ν → StateM σ π
  object : List π → Bool → StateM σ ν

namespace Factory

open Assembly (startsObjectLike)

variable {σ ν π : Type}

mutual

def build (F : Factory σ ν π) (verbatim : Bool) : Value → StateM σ (Option ν × List Notice)
  | .undefined => return (none, [])
  | .null => return (some (← F.null), [])
  | .boolean b => return (some (← F.boolean b), [])
  | .number n => return (some (← F.number n), [])
  | .string s => return (some (← F.string s verbatim), [])
  | .array items => do
      let built ← buildItems F 0 items
      return (some (← F.array built.1 (startsObjectLike items)), built.2)
  | .record entries => do
      let built ← buildEntries F entries
      return (some (← F.object built.1 true), built.2)

def buildItems (F : Factory σ ν π) (index : Nat) : List Value → StateM σ (List ν × List Notice)
  | [] => return ([], [])
  | item :: rest => do
      let built ← build F false item
      let later ← buildItems F (index + 1) rest
      match built.1 with
      | some node => return (node :: later.1, built.2 ++ later.2)
      | none => return (later.1, built.2 ++ .droppedItem index :: later.2)

-- The property of an entry is made before the next entry is looked at.
def buildEntries (F : Factory σ ν π) :
    List (Text × Value) → StateM σ (List π × List Notice)
  | [] => return ([], [])
  | (key, value) :: rest => do
      let built ← build F false value
      match built.1 with
      | some node =>
          let property ← F.property key node
          let later ← buildEntries F rest
          return (property :: later.1, built.2 ++ later.2)
      | none =>
          let later ← buildEntries F rest
          return (later.1, built.2 ++ .droppedProperty key :: later.2)

end

def buildArray (F : Factory σ ν π) (items : List Value) (force : Bool) :
    StateM σ (ν × List Notice) := do
  let built ← F.buildItems 0 items
  return (← F.array built.1 (startsObjectLike items || force), built.2)

def buildObject (F : Factory σ ν π) (entries : Entries Value) (multiLine : Bool) :
    StateM σ (ν × List Notice) := do
  let built ← F.buildEntries entries
  return (← F.object built.1 multiLine, built.2)

end Factory

end DataLiteral
