import DataLiteral.Toml.Document
import DataLiteral.Toml.Text

set_option autoImplicit false

namespace DataLiteral.Toml

open Text (Span)

def spanBetween (size : Nat) (before after : Text) : Span :=
  ⟨size - Text.byteSize before, size - Text.byteSize after⟩

def isBare (c : Char) : Bool :=
  c.isAlphanum || c == '_' || c == '-'

def isWordEnd (c : Char) : Bool :=
  " \t\n\r#,=[]\x7b\x7d".toList.contains c

def isInWord (c : Char) : Bool :=
  !isWordEnd c

def isInKey (c : Char) : Bool :=
  isInWord c && c != '.'

def startsString (text : Text) : Bool :=
  text.head? == some '"' || text.head? == some '\''

def readName (text : Text) : Result Text :=
  match text with
  | '"' :: '"' :: '"' :: _ => .error ⟨text⟩
  | '\'' :: '\'' :: '\'' :: _ => .error ⟨text⟩
  | _ =>
      if startsString text then readString text
      else
        let name := text.takeWhile isInKey
        if name.isEmpty || !name.all isBare then .error ⟨text⟩
        else .ok (name, text.dropWhile isInKey)

def takeKey (size : Nat) (text : Text) : Option Key × Text :=
  match readName text with
  | .ok (name, rest) => (some ⟨name, spanBetween size text rest⟩, rest)
  | .error _ => (none, if startsString text then skipString text else text.dropWhile isInKey)

def takeTarget (size : Nat) : Nat → Text → Target × Text
  | 0, text => (.unreadable (size - Text.byteSize text), text)
  | fuel + 1, text =>
      let (key, rest) := takeKey size text
      match key, skipBlank rest with
      | some key, '.' :: rest =>
          let (target, rest) := takeTarget size fuel (skipBlank rest)
          (target.below key, rest)
      | some key, _ => (.keys ⟨[], key⟩, rest)
      | none, '.' :: rest =>
          (.unreadable (size - Text.byteSize text), (takeTarget size fuel (skipBlank rest)).2)
      | none, _ => (.unreadable (size - Text.byteSize text), rest)

-- A bare word. A date and the time after it make one word across a single space.
def takeWord (text : Text) : Text × Text :=
  let word := text.takeWhile isInWord
  let rest := text.dropWhile isInWord
  match (takeDate? word), rest with
  | some (_, []), ' ' :: c :: after =>
      if c.isDigit then
        (word ++ ' ' :: (c :: after).takeWhile isInWord, (c :: after).dropWhile isInWord)
      else (word, rest)
  | _, _ => (word, rest)

def readScalar (size : Nat) (text : Text) : Result Node :=
  if startsString text then
    match readString text with
    | .ok (s, rest) => .ok (.scalar (spanBetween size text rest) (.string s), rest)
    | .error stop => .ok (.unreadable (size - Text.byteSize stop.rest), skipString text)
  else
    let (word, rest) := takeWord text
    match word, readWord? word with
    | [], _ => .error ⟨text⟩
    | _, some value => .ok (.scalar (spanBetween size text rest) value, rest)
    | _, none => .ok (.unreadable (size - Text.byteSize text), rest)

def maxDepth : Nat := 80

mutual

def readValue (size : Nat) : Nat → Nat → Text → Result Node
  | 0, _, text => .error ⟨text⟩
  | fuel + 1, depth, text =>
      match text, depth with
      | '[' :: rest, depth + 1 =>
          match readItems size fuel depth rest with
          | .ok (items, rest) => .ok (.array (spanBetween size text rest) items, rest)
          | .error stop => .error stop
      | '\x7b' :: rest, depth + 1 =>
          match readBraces size fuel depth rest with
          | .ok (entries, rest) => .ok (.braces (spanBetween size text rest) entries, rest)
          | .error stop => .error stop
      | _, _ => readScalar size text

def readItems (size : Nat) : Nat → Nat → Text → Result (List Node)
  | 0, _, text => .error ⟨text⟩
  | fuel + 1, depth, text =>
      match skipTrivia false text with
      | .error stop => .error stop
      | .ok (']' :: rest) => .ok ([], rest)
      | .ok text =>
          match readValue size fuel depth text with
          | .error stop => .error stop
          | .ok (node, rest) =>
              match skipTrivia false rest with
              | .ok (']' :: rest) => .ok ([node], rest)
              | .ok (',' :: rest) =>
                  match readItems size fuel depth rest with
                  | .ok (nodes, rest) => .ok (node :: nodes, rest)
                  | .error stop => .error stop
              | .ok rest => .error ⟨rest⟩
              | .error stop => .error stop

def readBraces (size : Nat) : Nat → Nat → Text → Result (List (Target × Node))
  | 0, _, text => .error ⟨text⟩
  | fuel + 1, depth, text =>
      match skipTrivia false text with
      | .error stop => .error stop
      | .ok ('\x7d' :: rest) => .ok ([], rest)
      | .ok text =>
          let (target, rest) := takeTarget size text.length text
          match skipTrivia false rest with
          | .ok ('=' :: rest) =>
              match skipTrivia false rest with
              | .error stop => .error stop
              | .ok rest =>
                  match readValue size fuel depth rest with
                  | .error stop => .error stop
                  | .ok (node, rest) =>
                      match skipTrivia false rest with
                      | .ok ('\x7d' :: rest) => .ok ([(target, node)], rest)
                      | .ok (',' :: rest) =>
                          match readBraces size fuel depth rest with
                          | .ok (entries, rest) => .ok ((target, node) :: entries, rest)
                          | .error stop => .error stop
                      | .ok rest => .error ⟨rest⟩
                      | .error stop => .error stop
          | .ok rest => .error ⟨rest⟩
          | .error stop => .error stop

end

-- Each step reads a bracket or goes on to the next item, so two for a character are enough.
def steps (text : Text) : Nat :=
  2 * text.length + 2

-- Reads a header after its opening brackets. One without its last key needs no closing: it cannot
-- be read, and takes the rest of its line.
def readHeader (size : Nat) (isArray : Bool) (start text : Text) : Result Statement :=
  let (target, rest) := takeTarget size text.length (skipBlank text)
  match isArray, skipBlank rest with
  | false, ']' :: rest => .ok (.header (spanBetween size start rest) false target, rest)
  | true, ']' :: ']' :: rest => .ok (.header (spanBetween size start rest) true target, rest)
  | true, ']' :: rest => .error ⟨rest⟩
  | _, rest =>
      if target = .unreadable (size - Text.byteSize rest) then
        .ok (.header (spanBetween size start rest) isArray target, rest.dropWhile (· != '\n'))
      else .error ⟨rest⟩

def readDefined (size : Nat) (text : Text) : Result Node :=
  match endLine false text with
  | .ok _ => .ok (.unreadable (size - Text.byteSize text), text)
  | .error _ => readValue size (steps text) maxDepth text

def readDefinition (size : Nat) (text : Text) : Result Statement :=
  let (target, rest) := takeTarget size text.length text
  match skipBlank rest with
  | '=' :: rest =>
      match readDefined size (skipBlank rest) with
      | .ok (node, rest) => .ok (.definition target node, rest)
      | .error stop => .error stop
  | rest => .error ⟨rest⟩

def readStatement (size : Nat) (text : Text) : Result Statement :=
  match text with
  | '[' :: '[' :: rest => readHeader size true text rest
  | '[' :: rest => readHeader size false text rest
  | _ => readDefinition size text

def readStatements (size : Nat) : Nat → Text → Except Stop (List Statement)
  | _, [] => .ok []
  | 0, text => .error ⟨text⟩
  | fuel + 1, text =>
      match endLine false text with
      | .ok rest => readStatements size fuel rest
      | .error _ =>
          match readStatement size (skipBlank text) with
          | .error stop => .error stop
          | .ok (statement, rest) =>
              match endLine false rest with
              | .error stop => .error stop
              | .ok rest =>
                  match readStatements size fuel rest with
                  | .ok statements => .ok (statement :: statements)
                  | .error stop => .error stop

def skipMark : Text → Text
  | '\ufeff' :: rest => rest
  | text => text

def readTable (source : Text) : Except Failure Table :=
  match readStatements (Text.byteSize source) source.length (skipMark source) with
  | .error stop => .error (.unreadable (stop.offset source))
  | .ok statements => do
      let document ← Document.ofStatements statements
      document.close

end DataLiteral.Toml
