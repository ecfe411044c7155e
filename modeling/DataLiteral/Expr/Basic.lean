import DataLiteral.Number

set_option autoImplicit false

namespace DataLiteral

/-- A literal expression. A verbatim string holds text that is already escaped. -/
inductive Expr where
  | null
  | boolean (value : Bool)
  | number (value : Number)
  | string (value : Text) (verbatim : Bool)
  | array (elements : List Expr) (multiLine : Bool)
  | object (properties : List (Text × Expr)) (multiLine : Bool)
  deriving Repr, Inhabited

namespace Expr

def isMultiLine : Expr → Bool
  | .array _ multiLine => multiLine
  | .object _ multiLine => multiLine
  | _ => false

mutual

def same : Expr → Expr → Bool
  | .null, .null => true
  | .boolean a, .boolean b => a == b
  | .number a, .number b => a.same b
  | .string a v, .string b w => a == b && v == w
  | .array xs m, .array ys n => sameElements xs ys && m == n
  | .object ps m, .object qs n => sameProperties ps qs && m == n
  | _, _ => false

def sameElements : List Expr → List Expr → Bool
  | [], [] => true
  | x :: xs, y :: ys => same x y && sameElements xs ys
  | _, _ => false

def sameProperties : List (Text × Expr) → List (Text × Expr) → Bool
  | [], [] => true
  | (k, x) :: ps, (l, y) :: qs => k == l && same x y && sameProperties ps qs
  | _, _ => false

end

end Expr

end DataLiteral
