import DataLiteral.Json.Fault
import DataLiteral.Json.Reader
import DataLiteral.Style.Reader
import DataLiteral.Toml.Value

set_option autoImplicit false

namespace DataLiteral

structure Source where
  text : Text
  name : Text
  deriving DecidableEq, Repr

namespace Source

def report (source : Source) (subject : Subject) (report : Report) : Diagnostic :=
  ⟨subject, source.name, report⟩

def readJson (source : Source) : Except Diagnostic Value :=
  match Json.read source.text with
  | .ok value => .ok value
  | .error failure =>
      .error (source.report .json ((Json.Fault.ofFailure source.text failure).report source.text))

def readToml (source : Source) : Except Diagnostic Value :=
  match Toml.read source.text with
  | .ok value => .ok value
  | .error failure => .error (source.report .toml (.malformed failure.offset?))

def readStyle (source : Source) : Except Diagnostic Style :=
  match Style.read source.text with
  | .ok style => .ok style
  | .error report => .error (source.report .config report)

end Source

end DataLiteral
