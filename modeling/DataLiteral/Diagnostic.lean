import DataLiteral.Text.Position

set_option autoImplicit false

namespace DataLiteral

open Text (Span)

/-- What is wrong with a source: it is no document, or something in it does not fit. Either may have
a place. -/
inductive Report where
  | malformed (offset : Option Nat)
  | described (text : Text) (span : Option Span)
  deriving DecidableEq, Repr

def Report.message : Report → Text
  | .malformed _ => []
  | .described message _ => message

def Report.span : Report → Option Span
  | .malformed offset => offset.map fun offset => ⟨offset, offset⟩
  | .described _ span => span

inductive Subject where
  | json
  | toml
  | config
  deriving DecidableEq, Repr

structure Label where
  text : Text
  offset : Nat
  length : Nat
  deriving DecidableEq, Repr

structure Diagnostic where
  subject : Subject
  filename : Text
  report : Report
  deriving DecidableEq, Repr

namespace Diagnostic

def message (d : Diagnostic) : Text :=
  match d.subject with
  | .json => "failed to parse JSON document '".toList ++ d.filename ++ ['\'']
  | .toml => "failed to parse TOML document '".toList ++ d.filename ++ ['\'']
  | .config =>
      "invalid printer configuration in '".toList ++ d.filename ++ "': ".toList ++ d.report.message

def code (d : Diagnostic) : Text :=
  match d.subject with
  | .json => "quill::json_error".toList
  | .toml => "quill::toml_error".toList
  | .config => "quill::config_error".toList

def help (d : Diagnostic) : Option Text :=
  match d.subject with
  | .config =>
      some "supported keys are: indent-width, tabs, quote (\"double\" or \"single\")".toList
  | _ => none

def labelText (d : Diagnostic) : Text :=
  match d.subject with
  | .config => d.report.message
  | _ => "parse error here".toList

def labels (d : Diagnostic) : List Label :=
  match d.report.span with
  | none => []
  | some span => [⟨d.labelText, span.start, span.stop - span.start⟩]

def cause (d : Diagnostic) : Option Text :=
  match d.subject with
  | .config => none
  | _ => some d.report.message

end Diagnostic

end DataLiteral
