import DataLiteral.Expr.Basic
import DataLiteral.Identifier
import DataLiteral.Layout
import DataLiteral.Style

set_option autoImplicit false

namespace DataLiteral

namespace Expr

def stringText (q : Quote) (value : Text) (verbatim : Bool) : Text :=
  if verbatim then q.verbatim value else q.escape value

def keyText (q : Quote) (key : Text) : Text :=
  if isIdentifier key then key else q.escape key

structure Brackets where
  opening : Text
  closing : Text
  padding : Text

def arrayBrackets : Brackets := ⟨['['], [']'], []⟩

def objectBrackets : Brackets := ⟨['\x7b'], ['\x7d'], [' ']⟩

def Brackets.enclose (b : Brackets) (indent : Indent) (level : Nat) (multiLine : Bool)
    (children : List Text) : Text :=
  if children.isEmpty then b.opening ++ b.closing
  else if multiLine then
    let deeper := '\n' :: indent.margin (level + 1)
    b.opening ++ [','].intercalate (children.map (deeper ++ ·)) ++
      '\n' :: indent.margin level ++ b.closing
  else b.opening ++ b.padding ++ [',', ' '].intercalate children ++ b.padding ++ b.closing

def childLevel (level : Nat) (multiLine : Bool) : Nat :=
  if multiLine then level + 1 else level

mutual

def textAt (indent : Indent) (q : Quote) (level : Nat) : Expr → Text
  | .null => "null".toList
  | .boolean true => "true".toList
  | .boolean false => "false".toList
  | .number n => n.literal
  | .string value verbatim => stringText q value verbatim
  | .array elements multiLine =>
      arrayBrackets.enclose indent level multiLine
        (elementTexts indent q (childLevel level multiLine) elements)
  | .object properties multiLine =>
      objectBrackets.enclose indent level multiLine
        (propertyTexts indent q (childLevel level multiLine) properties)

def elementTexts (indent : Indent) (q : Quote) (level : Nat) : List Expr → List Text
  | [] => []
  | element :: rest => textAt indent q level element :: elementTexts indent q level rest

def propertyTexts (indent : Indent) (q : Quote) (level : Nat) : List (Text × Expr) → List Text
  | [] => []
  | (key, value) :: rest =>
      (keyText q key ++ ':' :: ' ' :: textAt indent q level value) ::
        propertyTexts indent q level rest

end

def print (style : Style) (e : Expr) : Text :=
  e.textAt style.indent style.quote 0

def Brackets.steps (b : Brackets) (multiLine : Bool) (children : List (List Layout.Step)) :
    List Layout.Step :=
  if children.isEmpty then [.raw (b.opening ++ b.closing)]
  else if multiLine then
    .raw b.opening :: .push :: ([.raw [',']].intercalate (children.map (.newline :: ·)) ++
      [.pop, .newline, .raw b.closing])
  else
    .raw (b.opening ++ b.padding) :: ([.raw [',', ' ']].intercalate children ++
      [.raw (b.padding ++ b.closing)])

mutual

def steps (q : Quote) : Expr → List Layout.Step
  | .null => [.raw "null".toList]
  | .boolean true => [.raw "true".toList]
  | .boolean false => [.raw "false".toList]
  | .number n => [.raw n.literal]
  | .string value verbatim => [.raw (stringText q value verbatim)]
  | .array elements multiLine => arrayBrackets.steps multiLine (elementSteps q elements)
  | .object properties multiLine => objectBrackets.steps multiLine (propertySteps q properties)

def elementSteps (q : Quote) : List Expr → List (List Layout.Step)
  | [] => []
  | element :: rest => steps q element :: elementSteps q rest

def propertySteps (q : Quote) : List (Text × Expr) → List (List Layout.Step)
  | [] => []
  | (key, value) :: rest =>
      (.raw (keyText q key ++ [':', ' ']) :: steps q value) :: propertySteps q rest

end

end Expr

def Layout.expr (layout : Layout) (q : Quote) (e : Expr) : Layout :=
  layout.run (e.steps q)

end DataLiteral
