import DataLiteral.Text.Basic

set_option autoImplicit false

namespace DataLiteral

inductive Fragment where
  | line (text : Text)
  | doc (lines : List Text)
  deriving DecidableEq, Repr

namespace Fragment

def guardEnd : Text → Text
  | '*' :: '/' :: rest => '*' :: '\\' :: '/' :: guardEnd rest
  | c :: rest => c :: guardEnd rest
  | [] => []

def docLines (entries : List Text) : List Text :=
  (entries.flatMap (Text.splitOn '\n')).map (Text.trimEnd '\r')

def starred : Text → Text
  | [] => " *".toList
  | content => " * ".toList ++ content

def docCode (entries : List Text) : List Text :=
  match (docLines entries).map guardEnd with
  | [] => []
  | [only] => ["/** ".toList ++ only ++ " */".toList]
  | several => "/**".toList :: (several.map starred ++ [" */".toList])

def code : Fragment → List Text
  | .line text => [text]
  | .doc entries => docCode entries

end Fragment

end DataLiteral
