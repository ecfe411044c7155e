import DataLiteral.Expr.Print
import DataLiteral.Proofs.Number.Literal
import DataLiteral.Proofs.Quote.Scan
import DataLiteral.Proofs.Script.Tree

set_option autoImplicit false

namespace DataLiteral

open Script

theorem Script.Yields.intercalate {space : Text} {texts : List Text} {found : List (List Token)}
    (blank : ∀ c ∈ space, isBlank c) (h : List.Forall₂ Yields texts found) :
    Yields ((',' :: space).intercalate texts) ([.mark .comma].intercalate found) := by
  induction h with
  | nil => exact Yields.nil
  | @cons text found texts others first rest ih =>
    cases rest with
    | nil => simpa using first
    | cons second rest =>
      rw [List.intercalate_cons_cons, List.intercalate_cons_cons, List.append_assoc,
        List.append_assoc]
      exact first.append ((ih.blank blank).mark .comma) fun _ _ => detached_mark .comma _

namespace Expr

def IsSpace (text : Text) : Prop :=
  ∀ c ∈ text, c = ' ' ∨ c = '\t' ∨ c = '\n'

theorem IsSpace.isBlank {text : Text} (h : IsSpace text) : ∀ c ∈ text, isBlank c := by
  intro c hc
  rcases h c hc with rfl | rfl | rfl <;> decide

theorem IsSpace.detached {text rest : Text} (h : IsSpace text) (detached : Detached rest) :
    Detached (text ++ rest) := by
  cases text with
  | nil => exact detached
  | cons c text =>
    intro d hd
    cases hd
    rcases h c List.mem_cons_self with rfl | rfl | rfl <;> decide

theorem isSpace_margin (indent : Indent) (level : Nat) : IsSpace (indent.margin level) := by
  induction level with
  | zero => simp [IsSpace, Indent.margin]
  | succ level ih =>
    intro c hc
    rcases List.mem_append.mp hc with unit | rest
    · cases indent with
      | spaces width => exact .inl (List.mem_replicate.mp unit).2
      | tab => exact .inr (.inl (List.mem_singleton.mp unit))
    · exact ih c rest

theorem isSpace_newline (indent : Indent) (level : Nat) :
    IsSpace ('\n' :: indent.margin level) :=
  List.forall_mem_cons.mpr ⟨.inr (.inr rfl), isSpace_margin indent level⟩

section

variable {texts : List Text} {found : List (List Token)}

theorem yields_bracketed (opening closing : Mark) {before after text : Text} {inner : List Token}
    (first : IsSpace before) (last : IsSpace after) (h : Yields text inner) :
    Yields (opening.char :: (before ++ (text ++ (after ++ [closing.char]))))
      (.mark opening :: (inner ++ [.mark closing])) := by
  refine Yields.mark opening (Yields.blank first.isBlank (h.append ?_ ?_))
  · exact Yields.blank last.isBlank (Yields.nil.mark closing)
  · intro rest _
    rw [List.append_assoc]
    exact last.detached (detached_mark closing rest)

theorem yields_enclose {opening closing : Mark} (b : Brackets) (indent : Indent) (level : Nat)
    (multiLine : Bool) (opens : b.opening = [opening.char]) (closes : b.closing = [closing.char])
    (padding : IsSpace b.padding) (h : List.Forall₂ Yields texts found) :
    Yields (b.enclose indent level multiLine texts)
      (.mark opening :: ([.mark .comma].intercalate found ++ [.mark closing])) := by
  have none' : IsSpace [] := by simp [IsSpace]
  unfold Brackets.enclose
  rw [opens, closes]
  split
  · next empty =>
    rw [List.isEmpty_iff] at empty
    subst empty
    cases h
    simpa using yields_bracketed opening closing none' none' Yields.nil
  split
  · have each : List.Forall₂ Yields
        (texts.map (('\n' :: indent.margin (level + 1)) ++ ·)) found := by
      refine List.forall₂_map_left_iff.mpr (h.imp fun text inner reads => ?_)
      exact reads.blank (isSpace_newline indent (level + 1)).isBlank
    simpa using yields_bracketed opening closing none'
      (isSpace_newline indent level) (Yields.intercalate (by simp) each)
  · have space : IsSpace [' '] := by simp [IsSpace]
    simpa using yields_bracketed opening closing padding padding
      (Yields.intercalate space.isBlank h)

end

theorem yields_stringText {q : Quote} {value : Text} {verbatim : Bool}
    (h : verbatim → Quote.IsPaired value) :
    Yields (stringText q value verbatim) [stringToken (stringText q value verbatim)] := by
  have quoted (d : Quote) (body : Text)
      (scanned : ∀ rest, scanString d.char (body ++ rest) = some (body, rest)) :
      Yields (d.char :: body) [stringToken (d.char :: body)] := by
    rw [stringToken_quote]
    exact yields_string scanned
  cases verbatim with
  | false =>
    refine quoted q _ fun rest => ?_
    rw [List.append_assoc]
    exact Quote.scanString_escapeBody value rest
  | true =>
    rcases Quote.scan_verbatim (q := q) (h rfl) with ⟨d, body, shape, scanned⟩ |
        ⟨body, shape, scanned⟩
    · rw [stringText, if_pos rfl, shape]
      exact quoted d body scanned
    · rw [stringText, if_pos rfl, shape]
      exact yields_template scanned

def keyToken (q : Quote) (key : Text) : Token :=
  if isIdentifier key then .word key else .string (q.escape key)

theorem yields_keyText (q : Quote) (key : Text) :
    Yields (keyText q key) [keyToken q key] := by
  rw [keyText, keyToken]
  split
  · next identifier =>
    cases key with
    | nil => cases identifier
    | cons c rest =>
      simp only [isIdentifier, Bool.and_eq_true, List.all_eq_true] at identifier
      refine yields_word ⟨c, rest, rfl, identifier.1⟩ (List.forall_mem_cons.mpr ⟨?_, ?_⟩)
      · simp [isWordPart, identifier.1]
      · exact identifier.2
  · refine yields_string fun rest => ?_
    rw [List.append_assoc]
    exact Quote.scanString_escapeBody key rest

theorem stringValue?_escape (q : Quote) (text : Text) :
    stringValue? (q.escape text) = some (Text.units text) := by
  have found : [Quote.double, Quote.single].find? ((q.escape text).head? == some ·.char) =
      some q := by
    cases q <;> rfl
  have read : readString q (q.escape text) = some (Text.units text, []) := by
    simpa [Quote.escape, readString] using Quote.readStringBody_escapeBody q text []
  simp only [stringValue?, found, read]

theorem key?_keyToken (q : Quote) (key : Text) : key? (keyToken q key) = some (Text.units key) := by
  rw [keyToken]
  split
  · rfl
  · exact stringValue?_escape q key

mutual

def isPaired : Expr → Bool
  | .string value true => !Quote.endsEscaped false value
  | .array elements _ => areElementsPaired elements
  | .object properties _ => arePropertiesPaired properties
  | _ => true

def areElementsPaired : List Expr → Bool
  | [] => true
  | element :: rest => element.isPaired && areElementsPaired rest

def arePropertiesPaired : List (Text × Expr) → Bool
  | [] => true
  | (_, value) :: rest => value.isPaired && arePropertiesPaired rest

end

mutual

def tokens (q : Quote) : Expr → List Token
  | .null => [.word "null".toList]
  | .boolean true => [.word "true".toList]
  | .boolean false => [.word "false".toList]
  | .number n => Number.tokens n.literal
  | .string value verbatim => [stringToken (stringText q value verbatim)]
  | .array elements _ =>
      .mark .openBracket ::
        ([.mark .comma].intercalate (elementTokens q elements) ++ [.mark .closeBracket])
  | .object properties _ =>
      .mark .openBrace ::
        ([.mark .comma].intercalate (propertyTokens q properties) ++ [.mark .closeBrace])

def elementTokens (q : Quote) : List Expr → List (List Token)
  | [] => []
  | element :: rest => element.tokens q :: elementTokens q rest

def propertyTokens (q : Quote) : List (Text × Expr) → List (List Token)
  | [] => []
  | (key, value) :: rest =>
      (keyToken q key :: .mark .colon :: value.tokens q) :: propertyTokens q rest

end

mutual

/-- The expression as a reader of the script finds it: without the layout, with each key and each
escaped string by its characters, and with numbers and verbatim text by their source. -/
def tree (q : Quote) : Expr → Tree
  | .null => .null
  | .boolean value => .boolean value
  | .number n => .number (Number.split n.literal).1 (Number.split n.literal).2
  | .string value false => .string (q.escape value) (some (Text.units value))
  | .string value true => stringTree (q.verbatim value)
  | .array elements _ => .array (elementTrees q elements)
  | .object properties _ => .object (propertyTrees q properties)

def elementTrees (q : Quote) : List Expr → List Tree
  | [] => []
  | element :: rest => element.tree q :: elementTrees q rest

def propertyTrees (q : Quote) : List (Text × Expr) → List (Units × Tree)
  | [] => []
  | (key, value) :: rest => (Text.units key, value.tree q) :: propertyTrees q rest

end

section

variable (indent : Indent) (q : Quote)

mutual

theorem yields_textAt (level : Nat) :
    ∀ e : Expr, e.isPaired → Yields (e.textAt indent q level) (e.tokens q)
  | .null, _ => yields_word ⟨'n', _, rfl, rfl⟩ (List.all_eq_true.mp rfl)
  | .boolean true, _ => yields_word ⟨'t', _, rfl, rfl⟩ (List.all_eq_true.mp rfl)
  | .boolean false, _ => yields_word ⟨'f', _, rfl, rfl⟩ (List.all_eq_true.mp rfl)
  | .number n, _ => Number.yields_literal n
  | .string value verbatim, h => by
    refine yields_stringText ?_
    rintro rfl
    simpa [isPaired, Quote.IsPaired] using h
  | .array elements multiLine, h => by
    rw [textAt, tokens]
    exact yields_enclose arrayBrackets indent level multiLine rfl rfl
      (by simp [IsSpace, arrayBrackets])
      (yields_elementTexts (childLevel level multiLine) elements h)
  | .object properties multiLine, h => by
    rw [textAt, tokens]
    exact yields_enclose objectBrackets indent level multiLine rfl rfl
      (by simp [IsSpace, objectBrackets])
      (yields_propertyTexts (childLevel level multiLine) properties h)

theorem yields_elementTexts (level : Nat) : ∀ elements : List Expr, areElementsPaired elements →
    List.Forall₂ Yields (elementTexts indent q level elements) (elementTokens q elements)
  | [], _ => .nil
  | element :: rest, h => by
    obtain ⟨first, others⟩ := Bool.and_eq_true_iff.mp h
    exact .cons (yields_textAt level element first) (yields_elementTexts level rest others)

theorem yields_propertyTexts (level : Nat) :
    ∀ properties : List (Text × Expr), arePropertiesPaired properties →
      List.Forall₂ Yields (propertyTexts indent q level properties) (propertyTokens q properties)
  | [], _ => .nil
  | (key, value) :: rest, h => by
    obtain ⟨first, others⟩ := Bool.and_eq_true_iff.mp h
    have read := yields_textAt level value first
    have space : IsSpace [' '] := by simp [IsSpace]
    refine .cons ?_ (yields_propertyTexts level rest others)
    exact (yields_keyText q key).append ((read.blank space.isBlank).mark .colon)
      fun rest _ => detached_mark .colon _

end

end

theorem tokens_ne_nil (q : Quote) (e : Expr) : e.tokens q ≠ [] := by
  cases e with
  | number n =>
    rw [tokens, Number.tokens]
    split <;> simp
  | boolean value => cases value <;> simp [tokens]
  | _ => simp [tokens]

section

variable (q : Quote)

-- An element takes one step for itself and one for its place in the list.
mutual

theorem parseValue_tokens : ∀ (e : Expr) (fuel : Nat) (rest : List Token),
    2 * (e.tokens q).length ≤ fuel → parseValue fuel (e.tokens q ++ rest) = some (e.tree q, rest)
  | e, 0, rest, enough => by
    have nonempty := List.length_pos_iff.mpr (tokens_ne_nil q e)
    omega
  | .null, fuel + 1, rest, _ => rfl
  | .boolean true, fuel + 1, rest, _ => rfl
  | .boolean false, fuel + 1, rest, _ => rfl
  | .number n, fuel + 1, rest, _ => Number.parseValue_tokens n fuel rest
  | .string value false, fuel + 1, rest, _ => by
    have quoted : stringTree (q.escape value) =
        .string (q.escape value) (some (Text.units value)) := by
      rw [stringTree, stringValue?_escape]
      cases q <;> rfl
    rw [tokens, tree, ← quoted]
    exact parseValue_stringToken fuel _ rest
  | .string value true, fuel + 1, rest, _ => parseValue_stringToken fuel _ rest
  | .array elements _, fuel + 1, rest, enough => by
    simp only [tokens, List.length_cons, List.length_append] at enough
    have parsed := parseElements_tokens elements fuel rest (by omega)
    simp [tokens, tree, parseValue, parsed]
  | .object properties _, fuel + 1, rest, enough => by
    simp only [tokens, List.length_cons, List.length_append] at enough
    have parsed := parseProperties_tokens properties fuel rest (by omega)
    simp [tokens, tree, parseValue, parsed]

theorem parseElements_tokens : ∀ (elements : List Expr) (fuel : Nat) (rest : List Token),
    2 * ([Token.mark .comma].intercalate (elementTokens q elements)).length + 1 ≤ fuel →
      parseElements fuel ([.mark .comma].intercalate (elementTokens q elements) ++
        .mark .closeBracket :: rest) = some (elementTrees q elements, rest)
  | _, 0, _, enough => by omega
  | [], fuel + 1, rest, _ => by simp [elementTokens, elementTrees, parseElements]
  | [element], fuel + 1, rest, enough => by
    simp only [elementTokens, List.intercalate_singleton] at enough ⊢
    exact parseElements_last (parseValue_tokens element fuel _ (by omega))
  | element :: next :: others, fuel + 1, rest, enough => by
    simp only [elementTokens, List.intercalate_cons_cons, List.length_append, List.length_cons,
      List.append_assoc, List.cons_append, List.nil_append] at enough ⊢
    exact parseElements_more (parseValue_tokens element fuel _ (by omega))
      (parseElements_tokens (next :: others) fuel rest (by simp only [elementTokens]; omega))

theorem parseProperties_tokens :
    ∀ (properties : List (Text × Expr)) (fuel : Nat) (rest : List Token),
      2 * ([Token.mark .comma].intercalate (propertyTokens q properties)).length + 1 ≤ fuel →
        parseProperties fuel ([.mark .comma].intercalate (propertyTokens q properties) ++
          .mark .closeBrace :: rest) = some (propertyTrees q properties, rest)
  | _, 0, _, enough => by omega
  | [], fuel + 1, rest, _ => by simp [propertyTokens, propertyTrees, parseProperties]
  | [(key, value)], fuel + 1, rest, enough => by
    simp only [propertyTokens, List.intercalate_singleton, List.length_cons, List.cons_append]
      at enough ⊢
    exact parseProperties_last (key?_keyToken q key) (parseValue_tokens value fuel _ (by omega))
  | (key, value) :: next :: others, fuel + 1, rest, enough => by
    obtain ⟨nextKey, nextValue⟩ := next
    simp only [propertyTokens, List.intercalate_cons_cons, List.length_append, List.length_cons,
      List.append_assoc, List.cons_append, List.nil_append] at enough ⊢
    exact parseProperties_more (key?_keyToken q key) (parseValue_tokens value fuel _ (by omega))
      (parseProperties_tokens ((nextKey, nextValue) :: others) fuel rest
        (by simp only [propertyTokens]; omega))

end

end

theorem tokens_textAt {indent : Indent} {q : Quote} {level : Nat} {e : Expr} (h : e.isPaired) :
    Script.tokens (e.textAt indent q level) = some (e.tokens q) := by
  have lexed := yields_textAt indent q level e h [] (by simp [Detached])
  rw [List.append_nil, tokens_nil, Option.map_some, List.append_nil] at lexed
  exact lexed

theorem read_textAt {indent : Indent} {q : Quote} {level : Nat} {e : Expr} (h : e.isPaired) :
    read (e.textAt indent q level) = some (e.tree q) := by
  refine read_eq (tokens_textAt h) ?_
  have parsed := parseValue_tokens q e _ [] (Nat.le_refl _)
  rwa [List.append_nil] at parsed

/-- A printed expression is read back as the expression. -/
theorem read_print (e : Expr) (style : Style) (h : e.isPaired) :
    read (e.print style) = some (e.tree style.quote) :=
  read_textAt h

theorem read_print_nested :
    let e : Expr := .object [("a b".toList, .array [.number (.int (-1)), .null] true),
      ("a b".toList, .string "'\"\n$\x7b".toList true), ("ok".toList, .object [] true)] false
    e.isPaired ∧ read (e.print .default) = some (.object [
      (Text.units "a b".toList, .array [.number true ['1'], .null]),
      (Text.units "a b".toList, .template "\x60'\"\n\\$\x7b\x60".toList),
      (Text.units "ok".toList, .object [])]) := by
  intro e
  have paired : e.isPaired := by decide
  exact ⟨paired, read_print e .default paired⟩

end Expr

end DataLiteral
