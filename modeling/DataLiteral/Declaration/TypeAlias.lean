import DataLiteral.Declaration.Assembly
import DataLiteral.Expr.Print

set_option autoImplicit false

namespace DataLiteral

inductive Modifier where
  | exported
  deriving DecidableEq, Repr

def Modifier.keyword : Modifier → Text
  | .exported => "export".toList

structure TypeAlias where
  modifiers : List Modifier
  name : Text
  parameters : List Text
  referenced : Text
  docs : List Text
  deriving DecidableEq, Repr

namespace TypeAlias

def isExported (decl : TypeAlias) : Bool :=
  decl.modifiers.contains .exported

def attach (decl : TypeAlias) (comments : List Text) : TypeAlias :=
  { decl with docs := decl.docs ++ Fragment.docLines comments }

def parametersText (parameters : List Text) : Text :=
  if parameters.isEmpty then []
  else '<' :: ([',', ' '].intercalate parameters ++ ['>'])

def signature (decl : TypeAlias) : Text :=
  decl.modifiers.flatMap (fun modifier => modifier.keyword ++ [' ']) ++ "type ".toList ++
    decl.name ++ parametersText decl.parameters ++ " = ".toList ++ decl.referenced ++ [';']

def fragments (decl : TypeAlias) : List Fragment :=
  if decl.docs.isEmpty then [.line decl.signature]
  else [.doc decl.docs, .line decl.signature]

def print (style : Style) (decl : TypeAlias) : Text :=
  ((Layout.empty style.indent).emit decl.fragments).text

def assembly : AliasAssembly Modifier Text TypeAlias where
  exported := .exported
  identifier := id
  parameter := id
  reference := id
  declare modifiers name parameters referenced := ⟨modifiers, name, parameters, referenced, []⟩
  attach := attach

structure Draft where
  name : Text
  referenced : Text
  parameters : List Text
  comments : Option (List Text)
  deriving DecidableEq, Repr

namespace Draft

def new (name referenced : Text) : Draft :=
  ⟨name, referenced, [], none⟩

inductive Call where
  | parameter (name : Text)
  | parameters (names : List Text)
  | comment (line : Text)
  | comments (lines : Option (List Text))
  deriving DecidableEq, Repr

def apply (draft : Draft) : Call → Draft
  | .parameter name => { draft with parameters := draft.parameters ++ [name] }
  | .parameters names => { draft with parameters := draft.parameters ++ names }
  | .comment line => { draft with comments := some (draft.comments.getD [] ++ [line]) }
  | .comments lines => { draft with comments := lines }

def run (draft : Draft) (calls : List Call) : Draft :=
  calls.foldl apply draft

def build (draft : Draft) : TypeAlias × List Notice :=
  assembly.build draft.name draft.referenced draft.parameters draft.comments

end Draft

end TypeAlias

end DataLiteral
