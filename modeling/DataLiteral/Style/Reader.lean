import DataLiteral.Diagnostic
import DataLiteral.Number
import DataLiteral.Style
import DataLiteral.Text.Quoted
import DataLiteral.Toml.Reader

set_option autoImplicit false

namespace DataLiteral.Style

open Toml (Item Key Scalar)

inductive Found where
  | string (value : Text)
  | integer (value : Int)
  | float (value : Binary64)
  | boolean (value : Bool)
  | sequence
  | map
  deriving DecidableEq, Repr

inductive Cause where
  | unknownKey (key : Text)
  | widthOutOfRange (n : Int)
  | wrongType (found : Found) (expected : Text)
  | integerTooLarge
  | floatTooLarge
  | unknownQuote (name : Text)
  | quoteNotNamed
  | quoteMissing
  | quoteRepeated
  | tableNotEmpty
  | arrayNotEmpty
  | notTable (found : Scalar)
  deriving DecidableEq, Repr

def floatText (x : Binary64) : Text :=
  let text := (Number.float x).display
  if x.isFinite && !text.contains '.' then text ++ ".0".toList else text

def ticked (text : Text) : Text :=
  '\x60' :: (text ++ ['\x60'])

def fitsWord (n : Int) : Bool :=
  -0x8000000000000000 ≤ n && n ≤ 0xffffffffffffffff

def fitsTwoWords (n : Int) : Bool :=
  -0x80000000000000000000000000000000 ≤ n && n ≤ 0xffffffffffffffffffffffffffffffff

def integerType (n : Int) : Text :=
  if fitsWord n then []
  else if n ≤ 0x7fffffffffffffffffffffffffffffff then " as i128".toList
  else " as u128".toList

def Found.text : Found → Text
  | .string s => "string ".toList ++ Text.quoted s
  | .integer n => "integer ".toList ++ ticked (.ofInt n) ++ integerType n
  | .float x => "floating point ".toList ++ ticked (floatText x)
  | .boolean b => "boolean ".toList ++ ticked (if b then "true" else "false").toList
  | .sequence => "sequence".toList
  | .map => "map".toList

def typeName : Scalar → Text
  | .string _ => "string".toList
  | .integer _ => "integer".toList
  | .float _ => "float".toList
  | .hugeFloat => "float".toList
  | .boolean _ => "boolean".toList
  | .datetime _ => "datetime".toList

def widthKey : Text := "indent-width".toList

def tabsKey : Text := "tabs".toList

def quoteKey : Text := "quote".toList

def Cause.message : Cause → Text
  | .unknownKey key =>
      "unknown field ".toList ++ ticked key ++ ", expected one of ".toList ++ ticked widthKey ++
        ", ".toList ++ ticked tabsKey ++ ", ".toList ++ ticked quoteKey
  | .widthOutOfRange n =>
      "invalid value: integer ".toList ++ ticked (.ofInt n) ++ ", expected u8".toList
  | .wrongType found expected =>
      "invalid type: ".toList ++ found.text ++ ", expected ".toList ++ expected
  | .integerTooLarge => "integer number overflowed".toList
  | .floatTooLarge => "floating-point number overflowed".toList
  | .unknownQuote name =>
      "unknown variant ".toList ++ ticked name ++ ", expected ".toList ++
        ticked Quote.double.name ++ " or ".toList ++ ticked Quote.single.name
  | .quoteNotNamed => "wanted string or table".toList
  | .quoteMissing => "wanted exactly 1 element, found 0 elements".toList
  | .quoteRepeated => "wanted exactly 1 element, more than 1 element".toList
  | .tableNotEmpty => "expected empty table".toList
  | .arrayNotEmpty => "expected empty array".toList
  | .notTable found => "expected table, found ".toList ++ typeName found

structure Refusal where
  cause : Cause
  span : Text.Span
  deriving Repr

def Refusal.report (refusal : Refusal) : Report :=
  .described refusal.cause.message (some refusal.span)

def mismatch (expected : Text) : Item → Cause
  | .scalar _ (.string s) => .wrongType (.string s) expected
  | .scalar _ (.integer n) =>
      if fitsTwoWords n then .wrongType (.integer n) expected else .integerTooLarge
  | .scalar _ (.float x) => .wrongType (.float x) expected
  | .scalar _ .hugeFloat => .floatTooLarge
  | .scalar _ (.boolean b) => .wrongType (.boolean b) expected
  | .scalar _ (.datetime _) => .wrongType .map expected
  | .array _ _ _ => .wrongType .sequence expected
  | .table _ _ _ => .wrongType .map expected

def readWidth (item : Item) : Except Refusal UInt8 :=
  match item with
  | .scalar span (.integer n) =>
      if 0 ≤ n ∧ n ≤ 255 then .ok (.ofNat n.toNat)
      else if fitsWord n then .error ⟨.widthOutOfRange n, span⟩
      else .error ⟨mismatch "u8".toList item, span⟩
  | _ => .error ⟨mismatch "u8".toList item, item.span⟩

def readTabs (item : Item) : Except Refusal Bool :=
  match item with
  | .scalar _ (.boolean b) => .ok b
  | _ => .error ⟨mismatch "a boolean".toList item, item.span⟩

def readQuoteName (name : Text) (span : Text.Span) : Except Refusal Quote :=
  match Quote.ofName? name with
  | some q => .ok q
  | none => .error ⟨.unknownQuote name, span⟩

def checkEmpty (q : Quote) : Item → Except Refusal Quote
  | .table _ _ [] => .ok q
  | .array _ _ [] => .ok q
  | .table span _ (_ :: _) => .error ⟨.tableNotEmpty, span⟩
  | .array span _ (_ :: _) => .error ⟨.arrayNotEmpty, span⟩
  | .scalar span found => .error ⟨.notTable found, span⟩

def readQuote : Item → Except Refusal Quote
  | .scalar span (.string name) => readQuoteName name span
  | .table span _ [] => .error ⟨.quoteMissing, span⟩
  | .table _ _ [(key, item)] =>
      match readQuoteName key.name key.span with
      | .ok q => checkEmpty q item
      | .error refusal => .error refusal
  | .table span _ (_ :: _ :: _) => .error ⟨.quoteRepeated, span⟩
  | item => .error ⟨.quoteNotNamed, item.span⟩

def set (style : Style) (key : Key) (item : Item) : Except Refusal Style :=
  if key.name = widthKey then
    (readWidth item).map fun width => { style with indentWidth := width }
  else if key.name = tabsKey then
    (readTabs item).map fun tabs => { style with tabs := tabs }
  else if key.name = quoteKey then
    (readQuote item).map fun quote => { style with quote := quote }
  else .error ⟨.unknownKey key.name, key.span⟩

def setAll (style : Style) : List (Key × Item) → Except Refusal Style
  | [] => .ok style
  | (key, item) :: rest =>
      match style.set key item with
      | .ok style => style.setAll rest
      | .error refusal => .error refusal

def read (source : Text) : Except Report Style :=
  match Toml.readTable source with
  | .error failure => .error (.malformed failure.offset?)
  | .ok table =>
      match Style.default.setAll table.entries with
      | .ok style => .ok style
      | .error refusal => .error refusal.report

def configuration (style : Style) : Text :=
  widthKey ++ " = ".toList ++ .ofNat style.indentWidth.toNat ++ "\n".toList ++
    tabsKey ++ " = ".toList ++ (if style.tabs then "true" else "false").toList ++ "\n".toList ++
    quoteKey ++ " = \"".toList ++ style.quote.name ++ "\"\n".toList

end DataLiteral.Style
