import DataLiteral.Json.Number
import DataLiteral.Json.String
import DataLiteral.Value.Basic

set_option autoImplicit false

namespace DataLiteral.Json

def isBlank (c : Char) : Bool :=
  c == ' ' || c == '\t' || c == '\n' || c == '\r'

def skipBlank (text : Text) : Text :=
  text.dropWhile isBlank

def readWord (value : Value) : Text → Text → Result Value
  | [], text => .ok (value, text)
  | _ :: _, [] => .error (.next .endInValue [])
  | w :: word, c :: rest =>
      if c = w then readWord value word rest else .error (.next .expectedIdent (c :: rest))

def readScalarValue : Text → Result Value
  | [] => .error (.next .endInValue [])
  | c :: rest =>
      if c = 'n' then readWord .null "ull".toList rest
      else if c = 't' then readWord (.boolean true) "rue".toList rest
      else if c = 'f' then readWord (.boolean false) "alse".toList rest
      else if c = '"' then
        match readString rest with
        | .ok (s, rest) => .ok (.string s, rest)
        | .error failure => .error failure
      else if c = '-' || c.isDigit then
        match readNumber (c :: rest) with
        | .ok (n, rest) => .ok (.number n, rest)
        | .error failure => .error failure
      else .error (.next .expectedValue (c :: rest))

inductive Continuation where
  | done (rest : Text)
  | more (rest : Text)

def readContinuation (closing : Char) (missing atEnd : Cause) (text : Text) :
    Except Failure Continuation :=
  match skipBlank text with
  | [] => .error (.next atEnd [])
  | c :: rest =>
      if c = closing then .ok (.done rest)
      else if c = ',' then
        match skipBlank rest with
        | [] => .error (.next .endInValue [])
        | d :: after =>
            if d = closing then .error (.next .trailingComma (d :: after))
            else .ok (.more (d :: after))
      else .error (.next missing (c :: rest))

def readKey : Text → Result Text
  | '"' :: rest =>
      match readString rest with
      | .error failure => .error failure
      | .ok (key, rest) =>
          match skipBlank rest with
          | [] => .error (.next .endInObject [])
          | ':' :: rest => .ok (key, rest)
          | rest => .error (.next .expectedColon rest)
  | text => .error (.next .keyNotString text)

mutual

-- Reads a value. `fuel` bounds the steps and `depth` is the number of levels still allowed.
def readValue : Nat → Nat → Text → Result Value
  | 0, _, text => .error (.next .expectedValue text)
  | fuel + 1, depth, text =>
      match skipBlank text with
      | '[' :: rest =>
          match depth with
          | 0 => .error (.next .tooDeep ('[' :: rest))
          | depth + 1 =>
              match skipBlank rest with
              | [] => .error (.next .endInList [])
              | ']' :: rest => .ok (.array [], rest)
              | rest =>
                  match readItems fuel depth rest with
                  | .error failure => .error failure
                  | .ok (items, rest) => .ok (.array items, rest)
      | '\x7b' :: rest =>
          match depth with
          | 0 => .error (.next .tooDeep ('\x7b' :: rest))
          | depth + 1 =>
              match skipBlank rest with
              | [] => .error (.next .endInObject [])
              | '\x7d' :: rest => .ok (.record [], rest)
              | rest =>
                  match readEntries fuel depth rest with
                  | .error failure => .error failure
                  | .ok (entries, rest) => .ok (.ofEntries entries, rest)
      | text => readScalarValue text

def readItems : Nat → Nat → Text → Result (List Value)
  | 0, _, text => .error (.next .expectedValue text)
  | fuel + 1, depth, text =>
      match readValue fuel depth text with
      | .error failure => .error failure
      | .ok (item, rest) =>
          match readContinuation ']' .expectedItemEnd .endInList rest with
          | .error failure => .error failure
          | .ok (.done rest) => .ok ([item], rest)
          | .ok (.more rest) =>
              match readItems fuel depth rest with
              | .error failure => .error failure
              | .ok (items, rest) => .ok (item :: items, rest)

def readEntries : Nat → Nat → Text → Result (List (Text × Value))
  | 0, _, text => .error (.next .expectedValue text)
  | fuel + 1, depth, text =>
      match readKey text with
      | .error failure => .error failure
      | .ok (key, rest) =>
          match readValue fuel depth rest with
          | .error failure => .error failure
          | .ok (value, rest) =>
              match readContinuation '\x7d' .expectedEntryEnd .endInObject rest with
              | .error failure => .error failure
              | .ok (.done rest) => .ok ([(key, value)], rest)
              | .ok (.more rest) =>
                  match readEntries fuel depth rest with
                  | .error failure => .error failure
                  | .ok (entries, rest) => .ok ((key, value) :: entries, rest)

end

def maxDepth : Nat := 127

-- A character starts at most two steps.
def steps (source : Text) : Nat :=
  2 * source.length + 2

def finish {α : Type} : Result α → Except Failure α
  | .error failure => .error failure
  | .ok (found, rest) =>
      match skipBlank rest with
      | [] => .ok found
      | rest => .error (.next .trailingCharacters rest)

def read (source : Text) : Except Failure Value :=
  finish (readValue (steps source) maxDepth source)

def readNumberDocument (source : Text) : Except Failure Number :=
  match read source with
  | .ok (.number n) => .ok n
  | .ok _ => .error (.before .expectedValue source)
  | .error failure => .error failure

end DataLiteral.Json
