import DataLiteral.Notice

set_option autoImplicit false

namespace DataLiteral

structure AliasFactory (σ μ ι α : Type) where
  exported : StateM σ μ
  identifier : Text → StateM σ ι
  parameter : Text → StateM σ ι
  reference : Text → StateM σ ι
  declare : List μ → ι → List ι → ι → StateM σ α
  attach : α → List Text → StateM σ α

namespace AliasFactory

variable {σ μ ι α : Type}

def attachComments (F : AliasFactory σ μ ι α) (node : α) : Option (List Text) → StateM σ α
  | some (line :: rest) => F.attach node (line :: rest)
  | _ => return node

def build (F : AliasFactory σ μ ι α) (name referenced : Text) (parameters : List Text)
    (comments : Option (List Text)) : StateM σ (α × List Notice) := do
  let exported ← F.exported
  let bound ← F.identifier name
  let generics ← parameters.mapM F.parameter
  let target ← F.reference referenced
  let node ← F.declare [exported] bound generics target
  return (← F.attachComments node comments, [.builtAlias name referenced parameters.length])

end AliasFactory

end DataLiteral
