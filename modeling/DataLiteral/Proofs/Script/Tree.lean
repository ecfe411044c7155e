import DataLiteral.Proofs.Script.Token

set_option autoImplicit false

namespace DataLiteral.Script

/-- A literal as a script's reader finds it. Numbers and strings keep the source of their token, a
string also its value if strict code gives it one. -/
inductive Tree where
  | null
  | boolean (value : Bool)
  | number (negative : Bool) (magnitude : Text)
  | string (source : Text) (value : Option Units)
  | template (source : Text)
  | array (elements : List Tree)
  | object (properties : List (Units × Tree))
  deriving Repr, Inhabited

def isNumberName (name : Text) : Bool :=
  name = "NaN".toList || name = "Infinity".toList

def ofWord? (name : Text) : Option Tree :=
  if name = "null".toList then some .null
  else if name = "true".toList then some (.boolean true)
  else if name = "false".toList then some (.boolean false)
  else if isNumberName name then some (.number false name)
  else none

def stringValue? (source : Text) : Option Units :=
  match [Quote.double, Quote.single].find? (source.head? == some ·.char) with
  | none => none
  | some q =>
      match readString q source with
      | some (value, []) => some value
      | _ => none

def stringToken (source : Text) : Token :=
  if source.head? = some Quote.backtick then .template source else .string source

def stringTree (source : Text) : Tree :=
  if source.head? = some Quote.backtick then .template source
  else .string source (stringValue? source)

def key? : Token → Option Units
  | .word name => some (Text.units name)
  | .string source => stringValue? source
  | _ => none

abbrev Parsing (α : Type) := Option (α × List Token)

mutual

def parseValue : Nat → List Token → Parsing Tree
  | 0, _ => none
  | fuel + 1, tokens =>
      match tokens with
      | .word name :: rest => (ofWord? name).map fun tree => (tree, rest)
      | .numeral source :: rest => some (.number false source, rest)
      | .mark .minus :: .numeral source :: rest => some (.number true source, rest)
      | .mark .minus :: .word name :: rest =>
          if isNumberName name then some (.number true name, rest) else none
      | .string source :: rest => some (.string source (stringValue? source), rest)
      | .template source :: rest => some (.template source, rest)
      | .mark .openBracket :: rest =>
          (parseElements fuel rest).map fun (elements, rest) => (.array elements, rest)
      | .mark .openBrace :: rest =>
          (parseProperties fuel rest).map fun (properties, rest) => (.object properties, rest)
      | _ => none

def parseElements : Nat → List Token → Parsing (List Tree)
  | 0, _ => none
  | fuel + 1, tokens =>
      match tokens with
      | .mark .closeBracket :: rest => some ([], rest)
      | _ =>
          match parseValue fuel tokens with
          | some (element, .mark .comma :: rest) =>
              (parseElements fuel rest).map fun (later, rest) => (element :: later, rest)
          | some (element, .mark .closeBracket :: rest) => some ([element], rest)
          | _ => none

def parseProperties : Nat → List Token → Parsing (List (Units × Tree))
  | 0, _ => none
  | fuel + 1, tokens =>
      match tokens with
      | .mark .closeBrace :: rest => some ([], rest)
      | name :: .mark .colon :: rest =>
          match key? name, parseValue fuel rest with
          | some key, some (value, .mark .comma :: rest) =>
              (parseProperties fuel rest).map fun (later, rest) => ((key, value) :: later, rest)
          | some key, some (value, .mark .closeBrace :: rest) => some ([(key, value)], rest)
          | _, _ => none
      | _ => none

end

/-- The literal that a whole text is. Each token is looked at twice at most. -/
def read (text : Text) : Option Tree :=
  match tokens text with
  | none => none
  | some found =>
      match parseValue (2 * found.length) found with
      | some (tree, []) => some tree
      | _ => none

theorem stringToken_quote (d : Quote) (body : Text) :
    stringToken (d.char :: body) = .string (d.char :: body) := by
  cases d <;> rfl

theorem stringToken_backtick (body : Text) :
    stringToken (Quote.backtick :: body) = .template (Quote.backtick :: body) :=
  if_pos rfl

theorem parseValue_stringToken (fuel : Nat) (source : Text) (rest : List Token) :
    parseValue (fuel + 1) (stringToken source :: rest) = some (stringTree source, rest) := by
  rw [stringToken, stringTree]
  split <;> rw [parseValue]

section

variable {fuel : Nat} {found rest : List Token} {element : Tree}

theorem ne_closeBracket (h : parseValue fuel found = some (element, rest)) (after : List Token)
    (closed : found = .mark .closeBracket :: after) : False := by
  subst closed
  cases fuel <;> simp [parseValue] at h

theorem parseElements_last
    (h : parseValue fuel found = some (element, .mark .closeBracket :: rest)) :
    parseElements (fuel + 1) found = some ([element], rest) := by
  simp only [parseElements.eq_3 _ _ (ne_closeBracket h), h]

theorem parseElements_more {after : List Token} {later : List Tree}
    (h : parseValue fuel found = some (element, .mark .comma :: after))
    (others : parseElements fuel after = some (later, rest)) :
    parseElements (fuel + 1) found = some (element :: later, rest) := by
  simp only [parseElements.eq_3 _ _ (ne_closeBracket h), h, others, Option.map_some]

theorem isName_of_key? {name : Token} {key : Units} (h : key? name = some key) :
    (∃ text, name = .word text) ∨ ∃ source, name = .string source := by
  cases name <;> simp [key?] at h ⊢

theorem parseProperties_last {name : Token} {key : Units} (read : key? name = some key)
    (h : parseValue fuel found = some (element, .mark .closeBrace :: rest)) :
    parseProperties (fuel + 1) (name :: .mark .colon :: found) = some ([(key, element)], rest) := by
  rcases isName_of_key? read with ⟨text, rfl⟩ | ⟨source, rfl⟩ <;> simp [parseProperties, read, h]

theorem parseProperties_more {name : Token} {key : Units} {after : List Token}
    {later : List (Units × Tree)} (read : key? name = some key)
    (h : parseValue fuel found = some (element, .mark .comma :: after))
    (others : parseProperties fuel after = some (later, rest)) :
    parseProperties (fuel + 1) (name :: .mark .colon :: found) =
      some ((key, element) :: later, rest) := by
  rcases isName_of_key? read with ⟨text, rfl⟩ | ⟨source, rfl⟩ <;>
    simp [parseProperties, read, h, others]

end

theorem read_eq {text : Text} {found : List Token} {tree : Tree} (lexed : tokens text = some found)
    (parsed : parseValue (2 * found.length) found = some (tree, [])) : read text = some tree := by
  rw [read, lexed]
  simp only [parsed]

end DataLiteral.Script
