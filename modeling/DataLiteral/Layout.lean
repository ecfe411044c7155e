import DataLiteral.Fragment
import DataLiteral.Indent

set_option autoImplicit false

namespace DataLiteral

structure Layout where
  indent : Indent
  level : Nat
  text : Text
  deriving DecidableEq, Repr

namespace Layout

def empty (indent : Indent) : Layout :=
  ⟨indent, 0, []⟩

def margin (layout : Layout) : Text :=
  layout.indent.margin layout.level

def raw (layout : Layout) (text : Text) : Layout :=
  { layout with text := layout.text ++ text }

def line (layout : Layout) (text : Text) : Layout :=
  layout.raw (layout.margin ++ text ++ ['\n'])

def newline (layout : Layout) : Layout :=
  layout.raw ('\n' :: layout.margin)

def indentation (layout : Layout) : Layout :=
  layout.raw layout.margin

def push (layout : Layout) : Layout :=
  { layout with level := layout.level + 1 }

-- Level zero is not left.
def pop (layout : Layout) : Layout :=
  { layout with level := layout.level - 1 }

def fragment (layout : Layout) (fragment : Fragment) : Layout :=
  fragment.code.foldl line layout

def doc (layout : Layout) (entries : List Text) : Layout :=
  layout.fragment (.doc entries)

def emit (layout : Layout) (fragments : List Fragment) : Layout :=
  fragments.foldl fragment layout

inductive Step where
  | line (text : Text)
  | raw (text : Text)
  | newline
  | indentation
  | push
  | pop
  | doc (entries : List Text)
  | emit (fragments : List Fragment)
  deriving DecidableEq, Repr

def apply (layout : Layout) : Step → Layout
  | .line text => layout.line text
  | .raw text => layout.raw text
  | .newline => layout.newline
  | .indentation => layout.indentation
  | .push => layout.push
  | .pop => layout.pop
  | .doc entries => layout.doc entries
  | .emit fragments => layout.emit fragments

def run (layout : Layout) (steps : List Step) : Layout :=
  steps.foldl apply layout

theorem run_append (layout : Layout) (first second : List Step) :
    layout.run (first ++ second) = (layout.run first).run second :=
  List.foldl_append

end Layout

end DataLiteral
