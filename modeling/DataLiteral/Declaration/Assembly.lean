import DataLiteral.Notice

set_option autoImplicit false

namespace DataLiteral

structure AliasAssembly (μ ι α : Type) where
  exported : μ
  identifier : Text → ι
  parameter : Text → ι
  reference : Text → ι
  declare : List μ → ι → List ι → ι → α
  attach : α → List Text → α

namespace AliasAssembly

variable {μ ι α : Type}

def attachComments (A : AliasAssembly μ ι α) (node : α) : Option (List Text) → α
  | some (line :: rest) => A.attach node (line :: rest)
  | _ => node

def build (A : AliasAssembly μ ι α) (name referenced : Text) (parameters : List Text)
    (comments : Option (List Text)) : α × List Notice :=
  let node := A.declare [A.exported] (A.identifier name) (parameters.map A.parameter)
    (A.reference referenced)
  (A.attachComments node comments, [.builtAlias name referenced parameters.length])

end AliasAssembly

end DataLiteral
